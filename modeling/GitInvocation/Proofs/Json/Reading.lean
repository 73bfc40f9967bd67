import GitInvocation.Json.Reader
import GitInvocation.Proofs.Json.Spelling

/-!
# Reading a value from its lexemes

Every value has one sequence of lexemes, and a reader that makes no demand on the value takes it
from them as long as no more brackets are open than it allows. Demands are met place by place: a
value is read where none is made, and an object or an array where its parts are read.
-/
namespace GitInvocation.Json

mutual

/-- The lexemes of a value. -/
def lexemes : Json → List Lexeme
  | .string s => [.text s false]
  | .array items => .openArray :: itemLexemes items
  | .object members => .openObject :: memberLexemes members
  | v => [.word v]

/-- The items of an array and the closing bracket. -/
def itemLexemes : List Json → List Lexeme
  | [] => [.closeArray]
  | v :: items => lexemes v ++ moreItems items

/-- The items of an array behind the first. -/
def moreItems : List Json → List Lexeme
  | [] => [.closeArray]
  | v :: items => .comma :: lexemes v ++ moreItems items

def memberLexemes : List (String × Json) → List Lexeme
  | [] => [.closeObject]
  | (name, v) :: members => .text name false :: .colon :: lexemes v ++ moreMembers members

def moreMembers : List (String × Json) → List Lexeme
  | [] => [.closeObject]
  | (name, v) :: members =>
    .comma :: .text name false :: .colon :: lexemes v ++ moreMembers members

end

mutual

/-- The greatest number of brackets that are open at a time within a value. -/
def depth : Json → Nat
  | .array items => itemDepth items + 1
  | .object members => memberDepth members + 1
  | _ => 0

def itemDepth : List Json → Nat
  | [] => 0
  | v :: items => max (depth v) (itemDepth items)

def memberDepth : List (String × Json) → Nat
  | [] => 0
  | (_, v) :: members => max (depth v) (memberDepth members)

end

theorem depth_le_itemDepth {items : List Json} {v : Json} (h : v ∈ items) :
    v.depth ≤ itemDepth items := by
  induction items with
  | nil => exact absurd h List.not_mem_nil
  | cons w items ih =>
    rw [itemDepth]
    rcases List.mem_cons.mp h with rfl | hm
    · exact Nat.le_max_left _ _
    · exact (ih hm).trans (Nat.le_max_right _ _)

theorem depth_le_memberDepth {members : List (String × Json)} {m : String × Json}
    (h : m ∈ members) : m.2.depth ≤ memberDepth members := by
  induction members with
  | nil => exact absurd h List.not_mem_nil
  | cons n members ih =>
    rw [memberDepth]
    rcases List.mem_cons.mp h with rfl | hm
    · exact Nat.le_max_left _ _
    · exact (ih hm).trans (Nat.le_max_right _ _)

theorem itemDepth_le {items : List Json} {n : Nat}
    (h : ∀ v ∈ items, v.depth ≤ n) : itemDepth items ≤ n := by
  induction items with
  | nil => exact Nat.zero_le n
  | cons v items ih =>
    exact Nat.max_le.mpr
      ⟨h v List.mem_cons_self, ih fun w hw => h w (List.mem_cons_of_mem v hw)⟩

theorem memberDepth_le {members : List (String × Json)} {n : Nat}
    (h : ∀ m ∈ members, m.2.depth ≤ n) : memberDepth members ≤ n := by
  induction members with
  | nil => exact Nat.zero_le n
  | cons m members ih =>
    exact Nat.max_le.mpr
      ⟨h m List.mem_cons_self, ih fun w hw => h w (List.mem_cons_of_mem m hw)⟩

/-- Induction over a value and what is inside it. -/
theorem within {P : Json → Prop} (leaf : ∀ v, lexemes v = [.word v] → P v)
    (string : ∀ s, P (.string s)) (array : ∀ items, (∀ v ∈ items, P v) → P (.array items))
    (object : ∀ members, (∀ m ∈ members, P m.2) → P (.object members)) : ∀ v, P v
  | .null => leaf .null rfl
  | .bool b => leaf (.bool b) rfl
  | .integer n => leaf (.integer n) rfl
  | .float x => leaf (.float x) rfl
  | .string s => string s
  | .array items => array items fun v _ => within leaf string array object v
  | .object members => object members fun m _ => within leaf string array object m.2
termination_by v => sizeOf v
decreasing_by
  · have := List.sizeOf_lt_of_mem ‹_›
    simp only [Json.array.sizeOf_spec]
    omega
  · have hm := List.sizeOf_lt_of_mem ‹_›
    have : sizeOf m.2 < sizeOf m := by
      cases m
      simp only [Prod.mk.sizeOf_spec]
      omega
    simp only [Json.object.sizeOf_spec]
    omega

namespace Reader

variable {d : Demand} {stack : List Frame} {v : Json}

/-- The value is read at this place, whatever comes behind it. -/
def Reads (d : Demand) (stack : List Frame) (v : Json) : Prop :=
  ∀ first rest, run d (.value first stack) (v.lexemes ++ rest) = run d (.after v stack) rest

/-- No demand is made at this place nor at any place within it. -/
def Quiet (d : Demand) (stack : List Frame) : Prop :=
  ∀ above, (∀ l, d.value (above ++ stack) l = none) ∧
    (∀ members name, d.key members (above ++ stack) name = none) ∧ d.full (above ++ stack) = false

theorem Quiet.cons (h : Quiet d stack) (frame : Frame) : Quiet d (frame :: stack) := by
  intro above
  have := h (above ++ [frame])
  rwa [List.append_assoc] at this

theorem run_step {state next : State} {l : Lexeme} {ls : List Lexeme}
    (hs : ∀ v, state ≠ .after v []) (h : step d l state = .ok next) :
    run d state (l :: ls) = run d next ls := by
  rw [run.eq_def]
  split
  · exact absurd rfl (hs _)
  · next he => exact absurd he (by simp)
  · next he =>
    obtain ⟨rfl, rfl⟩ := List.cons.inj he
    rw [h]

/-- The further items of an array are read, each where it stands. -/
def ItemsRead (d : Demand) (stack : List Frame) : List Json → List Json → Prop
  | _, [] => True
  | done, v :: items =>
    d.full (.array done :: stack) = false ∧ Reads d (.array done :: stack) v ∧
      ItemsRead d stack (v :: done) items

/-- The members of an object are read, each where it stands. -/
def MembersRead (d : Demand) (stack : List Frame) :
    List (String × Json) → List (String × Json) → Prop
  | _, [] => True
  | done, (name, v) :: members =>
    d.key done stack name = none ∧ Reads d (.object done name :: stack) v ∧
      MembersRead d stack ((name, v) :: done) members

theorem run_moreItems {items done : List Json} {read : Json}
    (h : ItemsRead d stack (read :: done) items) (rest : List Lexeme) :
    run d (.after read (.array done :: stack)) (moreItems items ++ rest) =
      run d (.after (.array ((read :: done).reverse ++ items)) stack) rest := by
  induction items generalizing read done with
  | nil =>
    rw [moreItems, List.append_nil]
    exact run_step (by simp) rfl
  | cons v items ih =>
    obtain ⟨hfull, hv, hrest⟩ := h
    have hcomma : step d .comma (.after read (.array done :: stack)) =
        .ok (.value false (.array (read :: done) :: stack)) := by
      rw [step, atAfter, hfull]
      rfl
    rw [moreItems, List.cons_append, List.cons_append, run_step (by simp) hcomma,
      List.append_assoc, hv, ih hrest]
    simp

theorem run_moreMembers {members done : List (String × Json)} {name : String} {read : Json}
    (h : MembersRead d stack ((name, read) :: done) members) (rest : List Lexeme) :
    run d (.after read (.object done name :: stack)) (moreMembers members ++ rest) =
      run d (.after (.object (((name, read) :: done).reverse ++ members)) stack) rest := by
  induction members generalizing name read done with
  | nil =>
    rw [moreMembers, List.append_nil]
    exact run_step (by simp) rfl
  | cons m members ih =>
    obtain ⟨next, v⟩ := m
    obtain ⟨hkey, hv, hrest⟩ := h
    have hcomma : step d .comma (.after read (.object done name :: stack)) =
        .ok (.key false ((name, read) :: done) stack) := rfl
    have hname : step d (.text next false) (.key false ((name, read) :: done) stack) =
        .ok (.colon next ((name, read) :: done) stack) := by
      rw [step, atKey, hkey]
      · simp
      · simp
    have hcolon : step d .colon (.colon next ((name, read) :: done) stack) =
        .ok (.value false (.object ((name, read) :: done) next :: stack)) := rfl
    simp only [moreMembers, List.cons_append, List.append_assoc]
    rw [run_step (by simp) hcomma, run_step (by simp) hname, run_step (by simp) hcolon, hv,
      ih hrest]
    simp

/-- Only a closing bracket may stand for no value at all. -/
theorem step_value {l : Lexeme} (hl : l ≠ .closeArray) (first : Bool) :
    step d l (.value first stack) = atValue d stack l := by
  rw [step.eq_def]
  dsimp only
  split
  · exact absurd rfl hl
  · rfl

theorem reads_leaf (hl : v.lexemes = [.word v]) (hv : d.value stack (.word v) = none) :
    Reads d stack v := by
  intro first rest
  have hstep : step d (.word v) (.value first stack) = .ok (.after v stack) := by
    rw [step_value (by simp), atValue, faultOf?]
    dsimp only
    rw [hv]
    rfl
  rw [hl]
  exact run_step (by simp) hstep

theorem reads_string {s : String} (hv : d.value stack (.text s false) = none) :
    Reads d stack (.string s) := by
  intro first rest
  have hstep : step d (.text s false) (.value first stack) = .ok (.after (.string s) stack) := by
    rw [step_value (by simp), atValue, faultOf?]
    simp only [Bool.false_eq_true, false_and, if_false]
    rw [hv]
    rfl
  exact run_step (by simp) hstep

theorem opening_ok (hd : stack.length < deepest) (next : State) :
    opening d stack next = .ok next := if_neg fun h => absurd h.1 (Nat.not_le.mpr hd)

theorem reads_array {items : List Json} (hd : stack.length < deepest)
    (hv : d.value stack .openArray = none)
    (h : ∀ v more, items = v :: more →
      Reads d (.array [] :: stack) v ∧ ItemsRead d stack [v] more) :
    Reads d stack (.array items) := by
  intro first rest
  have hopen : step d .openArray (.value first stack) = .ok (.value true (.array [] :: stack)) := by
    rw [step_value (by simp), atValue, faultOf?]
    dsimp only
    rw [hv]
    exact opening_ok hd _
  rw [lexemes, List.cons_append, run_step (by simp) hopen]
  cases items with
  | nil => exact run_step (by simp) rfl
  | cons v more =>
    obtain ⟨hfirst, hmore⟩ := h v more rfl
    rw [itemLexemes, List.append_assoc, hfirst, run_moreItems hmore]
    simp

theorem reads_object {members : List (String × Json)} (hd : stack.length < deepest)
    (hv : d.value stack .openObject = none) (h : MembersRead d stack [] members) :
    Reads d stack (.object members) := by
  intro first rest
  have hopen : step d .openObject (.value first stack) = .ok (.key true [] stack) := by
    rw [step_value (by simp), atValue, faultOf?]
    dsimp only
    rw [hv]
    exact opening_ok hd _
  rw [lexemes, List.cons_append, run_step (by simp) hopen]
  cases members with
  | nil => exact run_step (by simp) rfl
  | cons m members =>
    obtain ⟨name, v⟩ := m
    obtain ⟨hkey, hfirst, hmore⟩ := h
    have hname : step d (.text name false) (.key true [] stack) = .ok (.colon name [] stack) := by
      rw [step, atKey, hkey]
      · simp
      · simp
    have hcolon : step d .colon (.colon name [] stack) =
        .ok (.value false (.object [] name :: stack)) := rfl
    simp only [memberLexemes, List.cons_append, List.append_assoc]
    rw [run_step (by simp) hname, run_step (by simp) hcolon, hfirst, run_moreMembers hmore]
    simp

theorem itemsRead_of_forall (hf : ∀ done, d.full (.array done :: stack) = false)
    {items : List Json} (h : ∀ v ∈ items, ∀ w done, Reads d (.array (w :: done) :: stack) v)
    (first : Json) (done : List Json) : ItemsRead d stack (first :: done) items := by
  induction items generalizing first done with
  | nil => trivial
  | cons v items ih =>
    exact ⟨hf (first :: done), h v List.mem_cons_self first done,
      ih (fun w hw => h w (List.mem_cons_of_mem v hw)) v (first :: done)⟩

theorem membersRead_of_forall {members : List (String × Json)}
    (hk : ∀ m ∈ members, ∀ done, d.key done stack m.1 = none)
    (h : ∀ m ∈ members, ∀ done, Reads d (.object done m.1 :: stack) m.2)
    (done : List (String × Json)) : MembersRead d stack done members := by
  induction members generalizing done with
  | nil => trivial
  | cons m members ih =>
    exact ⟨hk m List.mem_cons_self done, h m List.mem_cons_self done,
      ih (fun n hn => hk n (List.mem_cons_of_mem m hn))
        (fun n hn => h n (List.mem_cons_of_mem m hn)) (m :: done)⟩

/-- A value is read where nothing is demanded and no more brackets are open than allowed. -/
theorem reads_of_quiet (v : Json) : ∀ stack, Quiet d stack → stack.length + v.depth ≤ deepest →
    Reads d stack v := by
  induction v using within with
  | leaf v hl => exact fun stack hq _ => reads_leaf hl ((hq []).1 _)
  | string s => exact fun stack hq _ => reads_string ((hq []).1 _)
  | array items ih =>
    intro stack hq hd
    rw [depth] at hd
    have hread : ∀ v ∈ items, ∀ done, Reads d (.array done :: stack) v := by
      intro v hv done
      have := depth_le_itemDepth hv
      refine ih v hv _ (hq.cons _) ?_
      rw [List.length_cons]
      omega
    refine reads_array (by omega) ((hq []).1 _) ?_
    rintro v more rfl
    exact ⟨hread v List.mem_cons_self [],
      itemsRead_of_forall (fun done => (hq [.array done]).2.2)
        (fun w hw u done => hread w (List.mem_cons_of_mem v hw) (u :: done)) v []⟩
  | object members ih =>
    intro stack hq hd
    rw [depth] at hd
    have hkey : ∀ m ∈ members, ∀ done, d.key done stack m.1 = none :=
      fun m _ done => (hq []).2.1 done m.1
    refine reads_object (by omega) ((hq []).1 _) (membersRead_of_forall hkey ?_ [])
    intro m hm done
    have := depth_le_memberDepth hm
    refine ih m hm _ (hq.cons _) ?_
    rw [List.length_cons]
    omega

/-- A text that spells a value decodes as the value does, where the demands are met. -/
theorem decodeText_spelled {α : Type} {decode : Json → Except DecodeError α} {text : String}
    (ht : Lexeme.Spelled text.toList v.lexemes) (hr : Reads d [] v) :
    decodeText d decode text = decode v := by
  have hrun : run d (.value false []) v.lexemes = .ok (v, []) := by
    have := hr false []
    rw [List.append_nil] at this
    rw [this]
    rfl
  rw [decodeText, Lexeme.ofChars_spelled ht, hrun]
  show (decode v).bind _ = decode v
  cases decode v <;> rfl

theorem quiet_none (stack : List Frame) : Quiet Demand.none stack :=
  fun _ => ⟨fun _ => rfl, fun _ _ => rfl, rfl⟩

end Reader

end GitInvocation.Json
