import GitInvocation.Proofs.Json.Reading
import GitInvocation.Proofs.Json.Scanning

/-!
# What the reader accepts

A reader that skips nothing has taken exactly the lexemes of the value that it returns. The lexemes
behind a state are those of the values on its stack with the brackets that are still open, and each
step adds the lexeme it takes. So the texts that are accepted are the spellings of values in which
no more brackets are open at a time than allowed, and no others.
-/
namespace GitInvocation.Json.Reader

variable {d : Demand} {stack : List Frame} {l : Lexeme}

/-- The items that were read, the latest first, each with the comma behind it. -/
def doneItems : List Json → List Lexeme
  | [] => []
  | v :: done => doneItems done ++ v.lexemes ++ [.comma]

def doneMembers : List (String × Json) → List Lexeme
  | [] => []
  | (name, v) :: done =>
    doneMembers done ++ .text name false :: .colon :: v.lexemes ++ [.comma]

theorem itemLexemes_done (done : List Json) (v : Json) (more : List Json) :
    itemLexemes (done.reverse ++ v :: more) = doneItems done ++ v.lexemes ++ moreItems more := by
  induction done generalizing v more with
  | nil => rfl
  | cons w done ih =>
    rw [List.reverse_cons, List.append_assoc, List.singleton_append, ih, doneItems, moreItems]
    simp

theorem memberLexemes_done (done : List (String × Json)) (name : String) (v : Json)
    (more : List (String × Json)) :
    memberLexemes (done.reverse ++ (name, v) :: more) =
      doneMembers done ++ .text name false :: .colon :: v.lexemes ++ moreMembers more := by
  induction done generalizing name v more with
  | nil => rfl
  | cons m done ih =>
    obtain ⟨own, w⟩ := m
    rw [List.reverse_cons, List.append_assoc, List.singleton_append, ih, doneMembers, moreMembers]
    simp

/-- What was read of the brackets that are open. -/
def openLexemes : List Frame → List Lexeme
  | [] => []
  | .array items :: below => openLexemes below ++ .openArray :: doneItems items
  | .object members key :: below =>
    openLexemes below ++ .openObject :: doneMembers members ++ [.text key false, .colon]

/-- All that was read before the state. -/
def State.lexemes : State → List Lexeme
  | .value _ stack => openLexemes stack
  | .after v stack => openLexemes stack ++ v.lexemes
  | .key _ members stack => openLexemes stack ++ .openObject :: doneMembers members
  | .colon name members stack =>
    openLexemes stack ++ .openObject :: doneMembers members ++ [.text name false]

/-- No more brackets are open than allowed, within the values that were read neither. -/
def Held : List Frame → Prop
  | [] => True
  | .array items :: below =>
    below.length < deepest ∧ (∀ v ∈ items, v.depth + below.length < deepest) ∧ Held below
  | .object members _ :: below =>
    below.length < deepest ∧ (∀ m ∈ members, m.2.depth + below.length < deepest) ∧ Held below

/-- The invariant of the reader. Only a bracket that was just opened may be closed at once. -/
def State.Fit : State → Prop
  | .value first stack => Held stack ∧ (first = true → ∃ below, stack = .array [] :: below)
  | .after v stack => Held stack ∧ v.depth + stack.length ≤ deepest
  | .key first members stack => Held (.object members "" :: stack) ∧ (first = true → members = [])
  | .colon name members stack => Held (.object members name :: stack)

/-- A lexeme that is a value is one that has no parts. -/
def Leaf : Lexeme → Prop
  | .word v => v.lexemes = [.word v] ∧ v.depth = 0
  | _ => True

theorem Held.length_le (h : Held stack) : stack.length ≤ deepest := by
  cases stack with
  | nil => exact Nat.zero_le deepest
  | cons f below =>
    cases f with
    | array items => exact h.1
    | object members key => exact h.1

section Closing

variable {below : List Frame} {items : List Json} {members : List (String × Json)} {key : String}
  {read : Json}

theorem Held.item (h : Held (.array items :: below))
    (hread : read.depth + (below.length + 1) ≤ deepest) :
    Held (.array (read :: items) :: below) := by
  obtain ⟨hlt, hitems, hbelow⟩ := h
  refine ⟨hlt, fun v hv => ?_, hbelow⟩
  rcases List.mem_cons.mp hv with rfl | hm
  · omega
  · exact hitems v hm

theorem Held.member (h : Held (.object members key :: below))
    (hread : read.depth + (below.length + 1) ≤ deepest) (name : String) :
    Held (.object ((key, read) :: members) name :: below) := by
  obtain ⟨hlt, hmembers, hbelow⟩ := h
  refine ⟨hlt, fun m hm => ?_, hbelow⟩
  rcases List.mem_cons.mp hm with rfl | hm
  · show read.depth + below.length < deepest
    omega
  · exact hmembers m hm

theorem Held.array_depth (h : Held (.array items :: below)) :
    (Json.array items.reverse).depth + below.length ≤ deepest := by
  obtain ⟨hlt, hitems, -⟩ := h
  have hle : itemDepth items.reverse ≤ deepest - below.length - 1 := by
    refine itemDepth_le fun v hv => ?_
    have := hitems v (List.mem_reverse.mp hv)
    omega
  rw [depth]
  omega

theorem Held.object_depth (h : Held (.object members key :: below)) :
    (Json.object members.reverse).depth + below.length ≤ deepest := by
  obtain ⟨hlt, hmembers, -⟩ := h
  have hle : memberDepth members.reverse ≤ deepest - below.length - 1 := by
    refine memberDepth_le fun m hm => ?_
    have := hmembers m (List.mem_reverse.mp hm)
    omega
  rw [depth]
  omega

theorem lexemes_array_done (items : List Json) (read : Json) :
    (Json.array (read :: items).reverse).lexemes =
      .openArray :: doneItems items ++ read.lexemes ++ [.closeArray] := by
  rw [lexemes, List.reverse_cons, itemLexemes_done, moreItems]
  rfl

theorem lexemes_object_done (members : List (String × Json)) (key : String) (read : Json) :
    (Json.object ((key, read) :: members).reverse).lexemes =
      .openObject :: doneMembers members ++ .text key false :: .colon :: read.lexemes ++
        [.closeObject] := by
  rw [lexemes, List.reverse_cons, memberLexemes_done, moreMembers]
  rfl

end Closing

theorem opening_eq_ok (hd : ∀ stack, d.skipped stack = false) {next state : State}
    (h : opening d stack next = .ok state) : stack.length < deepest ∧ state = next := by
  rw [opening, hd] at h
  split at h
  · exact absurd h (by simp)
  · next hlong =>
    have hlt : ¬ deepest ≤ stack.length := fun hle => hlong ⟨hle, by decide⟩
    exact ⟨Nat.lt_of_not_le hlt, (Except.ok.inj h).symm⟩

theorem atValue_ok (hd : ∀ stack, d.skipped stack = false) (hl : Leaf l) (hs : Held stack)
    {next : State} (h : atValue d stack l = .ok next) :
    next.Fit ∧ next.lexemes = openLexemes stack ++ [l] := by
  have hnone : faultOf? false l = none ∧ begin d stack l = .ok next := by
    rw [atValue, hd] at h
    split at h
    · exact absurd h (by simp)
    · next hf =>
      split at h
      · exact absurd h (by simp)
      · exact ⟨hf, h⟩
  obtain ⟨hf, hb⟩ := hnone
  cases l with
  | openObject =>
    obtain ⟨hlt, rfl⟩ := opening_eq_ok hd hb
    exact ⟨⟨⟨hlt, by simp, hs⟩, fun _ => rfl⟩, rfl⟩
  | openArray =>
    obtain ⟨hlt, rfl⟩ := opening_eq_ok hd hb
    exact ⟨⟨⟨hlt, by simp, hs⟩, fun _ => ⟨stack, rfl⟩⟩, rfl⟩
  | word v =>
    obtain rfl := Except.ok.inj hb
    obtain ⟨hleaf, hdepth⟩ := hl
    refine ⟨⟨hs, ?_⟩, congrArg (openLexemes stack ++ ·) hleaf⟩
    rw [hdepth, Nat.zero_add]
    exact hs.length_le
  | text s half =>
    obtain rfl := Except.ok.inj hb
    have hhalf : half = false := by
      cases half with
      | true => exact absurd hf (by simp [faultOf?])
      | false => rfl
    have hle : 0 + stack.length ≤ deepest := by
      rw [Nat.zero_add]
      exact hs.length_le
    exact ⟨⟨hs, hle⟩, by rw [hhalf]; rfl⟩
  | _ => exact absurd hf (by simp [faultOf?])

theorem atAfter_ok {read : Json} (hs : Held stack) (hread : read.depth + stack.length ≤ deepest)
    {next : State} (h : atAfter d read stack l = .ok next) :
    next.Fit ∧ next.lexemes = openLexemes stack ++ read.lexemes ++ [l] := by
  unfold atAfter at h
  split at h
  · next items below =>
    obtain rfl := Except.ok.inj h
    have hheld := hs.item hread
    refine ⟨⟨hheld.2.2, hheld.array_depth⟩, ?_⟩
    rw [State.lexemes, lexemes_array_done, openLexemes]
    simp
  · next items below =>
    split at h
    · exact absurd h (by simp)
    · obtain rfl := Except.ok.inj h
      refine ⟨⟨hs.item hread, by simp⟩, ?_⟩
      rw [State.lexemes, openLexemes, openLexemes, doneItems]
      simp
  · next members key below =>
    obtain rfl := Except.ok.inj h
    have hheld := hs.member hread ""
    refine ⟨⟨hheld.2.2, hheld.object_depth⟩, ?_⟩
    rw [State.lexemes, lexemes_object_done, openLexemes]
    simp
  · next members key below =>
    obtain rfl := Except.ok.inj h
    refine ⟨⟨hs.member hread "", by simp⟩, ?_⟩
    rw [State.lexemes, openLexemes, doneMembers]
    simp
  · exact absurd h (by simp)

theorem atKey_ok (hd : ∀ stack, d.skipped stack = false) {members : List (String × Json)}
    (hs : Held (.object members "" :: stack)) {next : State}
    (h : atKey d members stack l = .ok next) :
    next.Fit ∧
      next.lexemes = openLexemes stack ++ .openObject :: doneMembers members ++ [l] := by
  unfold atKey at h
  split at h
  · next name half =>
    rw [hd] at h
    cases half with
    | true => exact absurd h (by simp)
    | false =>
      simp only [Bool.false_eq_true, false_and, if_false] at h
      split at h
      · exact absurd h (by simp)
      · obtain rfl := Except.ok.inj h
        exact ⟨hs, rfl⟩
  · exact absurd h (by simp)
  · exact absurd h (by simp)

/-- A step keeps the invariant and adds the lexeme that it takes. -/
theorem step_ok (hd : ∀ stack, d.skipped stack = false) (hl : Leaf l) {state next : State}
    (hf : state.Fit) (h : step d l state = .ok next) :
    next.Fit ∧ next.lexemes = state.lexemes ++ [l] := by
  cases state with
  | value first stack =>
    obtain ⟨hs, hfirst⟩ := hf
    rw [step.eq_def] at h
    dsimp only at h
    split at h
    · next items below =>
      obtain ⟨_, he⟩ := hfirst rfl
      obtain ⟨hframe, rfl⟩ := List.cons.inj he
      obtain rfl := Frame.array.inj hframe
      obtain rfl := Except.ok.inj h
      refine ⟨⟨hs.2.2, hs.array_depth⟩, ?_⟩
      rw [State.lexemes, State.lexemes, openLexemes]
      simp [lexemes, itemLexemes, doneItems]
    · exact atValue_ok hd hl hs h
  | after read stack => exact atAfter_ok hf.1 hf.2 h
  | key first members stack =>
    obtain ⟨hs, hfirst⟩ := hf
    rw [step.eq_def] at h
    dsimp only at h
    split at h
    · obtain rfl := hfirst rfl
      obtain rfl := Except.ok.inj h
      refine ⟨⟨hs.2.2, hs.object_depth⟩, ?_⟩
      rw [State.lexemes, State.lexemes]
      simp [lexemes, memberLexemes, doneMembers]
    · exact atKey_ok hd hs h
  | colon name members stack =>
    rw [step.eq_def] at h
    dsimp only at h
    split at h
    · obtain rfl := Except.ok.inj h
      refine ⟨⟨hf, by simp⟩, ?_⟩
      rw [State.lexemes, State.lexemes, openLexemes]
      simp
    · exact absurd h (by simp)

/-- The lexemes that a run takes are those of its value, and the rest is left over. -/
theorem run_ok (hd : ∀ stack, d.skipped stack = false) {state : State} {ls rest : List Lexeme}
    {v : Json} (hl : ∀ l ∈ ls, Leaf l) (hf : state.Fit) (h : run d state ls = .ok (v, rest)) :
    state.lexemes ++ ls = v.lexemes ++ rest ∧ v.depth ≤ deepest := by
  induction ls generalizing state with
  | nil =>
    rw [run.eq_def] at h
    split at h
    · obtain ⟨rfl, rfl⟩ := Prod.mk.inj (Except.ok.inj h)
      exact ⟨rfl, hf.2⟩
    · exact absurd h (by simp)
    · next he => exact absurd he (by simp)
  | cons l ls ih =>
    rw [run.eq_def] at h
    split at h
    · obtain ⟨rfl, rfl⟩ := Prod.mk.inj (Except.ok.inj h)
      exact ⟨rfl, hf.2⟩
    · next he => exact absurd he (by simp)
    · next he =>
      obtain ⟨rfl, rfl⟩ := List.cons.inj he
      split at h
      · next hstep =>
        obtain ⟨hfit, hlex⟩ := step_ok hd (hl l List.mem_cons_self) hf hstep
        have hrest := ih (fun k hk => hl k (List.mem_cons_of_mem l hk)) hfit h
        rw [hlex, List.append_assoc, List.singleton_append] at hrest
        exact hrest
      · exact absurd h (by simp)

section Leaves

open Lexeme

theorem leaf_of_value? {w : Number.Written} {v : Json} (h : Number.value? w = some v) :
    Leaf (.word v) := by
  have hfloat : ∀ {x : Option Binary64}, x.map Json.float = some v → Leaf (.word v) := by
    intro x hx
    obtain ⟨y, -, rfl⟩ := Option.map_eq_some_iff.mp hx
    exact ⟨rfl, rfl⟩
  unfold Number.value? at h
  split at h
  · dsimp only at h
    split at h
    · exact hfloat h
    · split at h
      · obtain rfl := Option.some.inj h
        exact ⟨rfl, rfl⟩
      · split at h
        · obtain rfl := Option.some.inj h
          exact ⟨rfl, rfl⟩
        · obtain rfl := Option.some.inj h
          exact ⟨rfl, rfl⟩
  · exact hfloat h

theorem leaf_afterName {v : Json} (hv : Leaf (.word v)) (name s : List Char) :
    Leaf (afterName v name s).1 := by
  induction name generalizing s with
  | nil => cases s <;> exact hv
  | cons n name ih =>
    cases s with
    | nil => trivial
    | cons c s =>
      rw [afterName]
      split
      · exact ih s
      · trivial

theorem leaf_starting (c : Char) (s : List Char) : Leaf (starting c s).1 := by
  unfold starting
  split
  · next hm =>
    have := mem_of_lookup hm
    simp only [marks, List.mem_cons, Prod.mk.injEq, List.not_mem_nil, or_false] at this
    rcases this with h | h | h | h | h | h <;> (obtain ⟨-, rfl⟩ := h; trivial)
  · next hw =>
    apply leaf_afterName
    have := mem_of_lookup hw
    simp only [words, List.mem_cons, Prod.mk.injEq, List.not_mem_nil, or_false] at this
    rcases this with h | h | h <;> (obtain ⟨-, rfl, -⟩ := h; exact ⟨rfl, rfl⟩)
  · split
    · unfold ofText
      split <;> trivial
    · split
      · unfold ofNumber
        split
        · split
          · next hv => exact leaf_of_value? hv
          · trivial
        · trivial
        · trivial
      · trivial

theorem leaf_of_mem {s : List Char} (h : l ∈ ofChars s) : Leaf l := by
  induction hn : s.length using Nat.strong_induction_on generalizing s with
  | _ n ih =>
    cases hnext : next? s with
    | none =>
      rw [ofChars_of_none hnext] at h
      exact absurd h List.not_mem_nil
    | some p =>
      obtain ⟨k, rest⟩ := p
      have hlen := length_next? hnext
      rw [ofChars_of_some hnext] at h
      rcases List.mem_cons.mp h with rfl | hm
      · unfold next? at hnext
        split at hnext
        · exact absurd hnext (by simp)
        · next c tail _ =>
          have := leaf_starting c tail
          rwa [Option.some.inj hnext] at this
      · split at hm
        · exact absurd hm List.not_mem_nil
        · exact ih rest.length (by omega) hm rfl

theorem sound_moreItems {items : List Json} (h : ∀ v ∈ items, ∀ l ∈ v.lexemes, l.Sound) :
    ∀ l ∈ moreItems items, l.Sound := by
  induction items with
  | nil => simp [moreItems, Sound]
  | cons v items ih =>
    have hrest := ih fun w hw => h w (List.mem_cons_of_mem v hw)
    intro l hl
    rw [moreItems] at hl
    rcases List.mem_append.mp hl with hl | hl
    · rcases List.mem_cons.mp hl with rfl | hl
      · trivial
      · exact h v List.mem_cons_self l hl
    · exact hrest l hl

theorem sound_moreMembers {members : List (String × Json)}
    (h : ∀ m ∈ members, ∀ l ∈ m.2.lexemes, l.Sound) : ∀ l ∈ moreMembers members, l.Sound := by
  induction members with
  | nil => simp [moreMembers, Sound]
  | cons m members ih =>
    obtain ⟨name, v⟩ := m
    have hrest := ih fun n hn => h n (List.mem_cons_of_mem _ hn)
    intro l hl
    rw [moreMembers] at hl
    rcases List.mem_append.mp hl with hl | hl
    · rcases List.mem_cons.mp hl with rfl | hl
      · trivial
      rcases List.mem_cons.mp hl with rfl | hl
      · rfl
      rcases List.mem_cons.mp hl with rfl | hl
      · trivial
      · exact h (name, v) List.mem_cons_self l hl
    · exact hrest l hl

/-- Nothing is wrong with the lexemes of a value. -/
theorem sound_lexemes (v : Json) : ∀ l ∈ v.lexemes, l.Sound := by
  induction v using within with
  | leaf v hl =>
    intro l h
    rw [hl, List.mem_singleton] at h
    rw [h]
    trivial
  | string s =>
    intro l h
    rw [List.mem_singleton.mp h]
    rfl
  | array items ih =>
    intro l h
    rcases List.mem_cons.mp h with rfl | h
    · trivial
    cases items with
    | nil =>
      rw [List.mem_singleton.mp h]
      trivial
    | cons v items =>
      rcases List.mem_append.mp h with h | h
      · exact ih v List.mem_cons_self l h
      · exact sound_moreItems (fun w hw => ih w (List.mem_cons_of_mem v hw)) l h
  | object members ih =>
    intro l h
    rcases List.mem_cons.mp h with rfl | h
    · trivial
    cases members with
    | nil =>
      rw [List.mem_singleton.mp h]
      trivial
    | cons m members =>
      obtain ⟨name, v⟩ := m
      rcases List.mem_append.mp h with h | h
      · rcases List.mem_cons.mp h with rfl | h
        · rfl
        rcases List.mem_cons.mp h with rfl | h
        · trivial
        · exact ih (name, v) List.mem_cons_self l h
      · exact sound_moreMembers (fun n hn => ih n (List.mem_cons_of_mem _ hn)) l h

end Leaves

/-- A text that is accepted spells a value, which decodes to what is returned. -/
theorem spelled_of_decodeText {α : Type} {decode : Json → Except DecodeError α} {text : String}
    {a : α} (hd : ∀ stack, d.skipped stack = false) (h : decodeText d decode text = .ok a) :
    ∃ v : Json, Lexeme.Spelled text.toList v.lexemes ∧ v.depth ≤ deepest ∧ decode v = .ok a := by
  rw [decodeText] at h
  cases hrun : run d (.value false []) (Lexeme.ofChars text.toList) with
  | error e =>
    rw [hrun] at h
    exact absurd h (by simp [bind, Except.bind])
  | ok p =>
    obtain ⟨v, rest⟩ := p
    rw [hrun] at h
    replace h : ((decode v).bind fun a => if rest.isEmpty then .ok a else .error .malformed) =
      .ok a := h
    cases hdec : decode v with
    | error e =>
      rw [hdec] at h
      exact absurd h (by simp [Except.bind])
    | ok b =>
      rw [hdec, Except.bind] at h
      split at h
      · next hrest =>
        obtain rfl := List.isEmpty_iff.mp hrest
        have hfit : (State.value false []).Fit := ⟨trivial, fun hf => absurd hf (by decide)⟩
        obtain ⟨hlex, hdepth⟩ := run_ok hd (fun l hl => leaf_of_mem hl) hfit hrun
        rw [List.append_nil, State.lexemes, openLexemes, List.nil_append] at hlex
        have hsound : ∀ l ∈ Lexeme.ofChars text.toList, l.Sound := hlex ▸ sound_lexemes v
        exact ⟨v, hlex ▸ Lexeme.spelled_of_sound hsound, hdepth, hdec.trans h⟩
      · exact absurd h (by simp)

/-- The texts that are read as a value are those that spell it, if no more brackets are open in it
at a time than allowed. -/
theorem decodeText_none_iff {text : String} {v : Json} :
    decodeText Demand.none .ok text = .ok v ↔
      Lexeme.Spelled text.toList v.lexemes ∧ v.depth ≤ deepest := by
  constructor
  · intro h
    obtain ⟨w, hspelled, hdepth, hw⟩ := spelled_of_decodeText (fun _ => rfl) h
    obtain rfl := Except.ok.inj hw
    exact ⟨hspelled, hdepth⟩
  · rintro ⟨hspelled, hdepth⟩
    apply decodeText_spelled hspelled
    apply reads_of_quiet v [] (quiet_none [])
    rw [List.length_nil, Nat.zero_add]
    exact hdepth

end GitInvocation.Json.Reader
