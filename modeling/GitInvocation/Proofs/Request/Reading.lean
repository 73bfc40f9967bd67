import GitInvocation.Proofs.Json.Accepting
import GitInvocation.Proofs.Request.Spellings

/-!
# Reading requests

The reader of requests looks at the outermost value, at the name of the operation and at the names
of the outermost members, and at nothing further inside. A value that says an operation meets all
these demands, wherever the name of the operation stands among the members, so each text that
spells such a value is read as the operation.
-/
namespace GitInvocation.Request

open Json.Reader

variable {o : Operation} {v : Json} {name : String} {members : List (String × Json)}

/-- The value asks for the operation: an object that names it once and gives its fields, or an array
that begins with its name and goes on with its fields. -/
inductive Says (o : Operation) : Json → Prop
  | object {members : List (String × Json)}
      (named : members.filter (fun m => m.1 = tag) = [(tag, .string o.name)])
      (fields : o.Gives members) : Says o (.object members)
  | array {items : List Json} (fields : o.GivesItems items) :
      Says o (.array (.string o.name :: items))

section Lookup

theorem lookup_cons_other (h : name ≠ tag) (v : Json) :
    List.lookup tag ((name, v) :: members) = members.lookup tag := by
  have hb : (tag == name) = false := beq_false_of_ne h.symm
  rw [List.lookup_cons, hb]

theorem lookup_of_named (h : members.filter (fun m => m.1 = tag) = [(tag, v)]) :
    members.lookup tag = some v := by
  induction members with
  | nil => exact absurd h (by simp)
  | cons m members ih =>
    obtain ⟨name, w⟩ := m
    by_cases hname : name = tag
    · subst hname
      rw [List.filter_cons_of_pos (by simp), List.cons.injEq, Prod.mk.injEq] at h
      rw [List.lookup_cons_self, h.1.2]
    · rw [List.filter_cons_of_neg (by simpa using hname)] at h
      rw [lookup_cons_other hname, ih h]

end Lookup

section Demands

variable {frame : Frame} {done : List (String × Json)}

theorem value_inside (f g : Frame) (stack : List Frame) (l : Json.Lexeme) :
    demand.value (f :: g :: stack) l = none := by
  cases f with
  | array items => cases items <;> rfl
  | object members key => rfl

/-- Nothing is demanded inside of what nothing is demanded of. -/
theorem quiet_single (h : ∀ l, demand.value [frame] l = none) : Quiet demand [frame] := by
  intro above
  refine ⟨fun l => ?_, fun members name => ?_, rfl⟩
  · cases above with
    | nil => exact h l
    | cons f above =>
      cases above with
      | nil => exact value_inside f frame [] l
      | cons g above => exact value_inside f g (above ++ [frame]) l
  · cases above with
    | nil => rfl
    | cons f above => rfl

theorem quiet_member (h : name ≠ tag) : Quiet demand [.object done name] :=
  quiet_single fun _ => if_neg h

theorem quiet_item (first : Json) (items : List Json) : Quiet demand [.array (first :: items)] :=
  quiet_single fun _ => rfl

theorem tagFault_name (h : name ∈ Operation.names) : tagFault? (.text name false) = none :=
  if_pos h

theorem key_ok (h : name = tag → done.lookup tag = none) : demand.key done [] name = none := by
  refine if_neg fun hk => ?_
  rw [h hk.1] at hk
  exact absurd hk.2 (by simp)

theorem reads_member (h : name ≠ tag) (hd : v.depth < deepest) :
    Reads demand [.object done name] v := by
  refine reads_of_quiet v _ (quiet_member h) ?_
  rw [List.length_singleton]
  omega

/-- Members besides the name of the operation are read. -/
theorem membersRead_others (hm : ∀ m ∈ members, m.1 ≠ tag)
    (hd : ∀ m ∈ members, m.2.depth < deepest) (done : List (String × Json)) :
    MembersRead demand [] done members :=
  membersRead_of_forall (fun m h _ => key_ok fun he => absurd he (hm m h))
    (fun m h _ => reads_member (hm m h) (hd m h)) done

/-- The name of the operation may stand at any place among the members. -/
theorem membersRead_named (hn : name ∈ Operation.names)
    (hm : members.filter (fun m => m.1 = tag) = [(tag, .string name)])
    (hd : ∀ m ∈ members, m.2.depth < deepest) (hdone : done.lookup tag = none) :
    MembersRead demand [] done members := by
  induction members generalizing done with
  | nil => trivial
  | cons m members ih =>
    obtain ⟨own, w⟩ := m
    have hothers := fun n hn => hd n (List.mem_cons_of_mem (own, w) hn)
    by_cases hown : own = tag
    · subst hown
      rw [List.filter_cons_of_pos (by simp), List.cons.injEq, Prod.mk.injEq] at hm
      obtain ⟨⟨-, rfl⟩, htail⟩ := hm
      rw [List.filter_eq_nil_iff] at htail
      refine ⟨key_ok fun _ => hdone, reads_string ?_, membersRead_others ?_ hothers _⟩
      · show (if tag = tag then tagFault? (.text name false) else none) = none
        rw [if_pos rfl, tagFault_name hn]
      · intro m hm he
        exact htail m hm (decide_eq_true he)
    · rw [List.filter_cons_of_neg (by simpa using hown)] at hm
      refine ⟨key_ok fun he => absurd he hown, ?_, ih hm hothers ?_⟩
      · exact reads_member hown (hd (own, w) List.mem_cons_self)
      · rw [lookup_cons_other hown, hdone]

end Demands

/-- Every operation is listed under its name. -/
theorem name_mem_names (o : Operation) : o.name ∈ Operation.names := by
  obtain ⟨read, hread, -⟩ := o.exists_readBy
  have hsome : (Operation.catalog.lookup o.name).isSome := by
    rw [hread]
    rfl
  obtain ⟨entry, hentry, he⟩ := List.lookup_isSome_iff.mp hsome
  rw [eq_of_beq he]
  exact List.mem_map_of_mem hentry

/-- A value that says an operation is read where requests are read. -/
theorem reads_request (h : Says o v) (hd : v.depth ≤ deepest) : Reads demand [] v := by
  have hname := name_mem_names o
  cases h with
  | @object members named fields =>
    rw [Json.depth] at hd
    refine reads_object (by decide) rfl (membersRead_named hname named (fun m hm => ?_) rfl)
    have := Json.depth_le_memberDepth hm
    omega
  | @array items fields =>
    rw [Json.depth, Json.itemDepth] at hd
    refine reads_array (by decide) rfl ?_
    intro first more he
    obtain ⟨rfl, rfl⟩ := List.cons.inj he
    refine ⟨reads_string (tagFault_name hname), itemsRead_of_forall (fun _ => rfl) ?_ _ []⟩
    intro v hv w done
    have := Json.depth_le_itemDepth hv
    refine reads_of_quiet v _ (quiet_item w done) ?_
    rw [List.length_singleton]
    omega

/-- A value that says an operation is taken as the operation. -/
theorem ofJson_request (h : Says o v) : ofJson v = .ok o := by
  obtain ⟨read, hread, hby⟩ := o.exists_readBy
  have htag : ∀ body, ofTag (.string o.name) body = read body := by
    intro body
    rw [ofTag, hread]
  cases h with
  | @object members named fields =>
    rw [ofJson, lookup_of_named named]
    exact (htag _).trans (hby.ofMembers members fields)
  | @array items fields =>
    exact (htag _).trans (hby.ofItems items fields)

/-- Each text that spells a value that says an operation is read as the operation. -/
theorem parse_request {text : String} (h : Says o v)
    (ht : Json.Lexeme.Spelled text.toList v.lexemes) (hd : v.depth ≤ deepest) :
    parse text = .ok o := by
  rw [parse, decodeText_spelled ht (reads_request h hd)]
  exact ofJson_request h

/-- What an operation is written as says the operation. -/
theorem says_toJson (o : Operation) : Says o (toJson o) := by
  obtain ⟨read, -, hby⟩ := o.exists_readBy
  have hnone : o.members.filter (fun m => m.1 = tag) = [] := by
    rw [List.filter_eq_nil_iff]
    intro m hm he
    exact hby.untagged m hm (of_decide_eq_true he)
  refine .object ?_ hby.written
  rw [List.filter_cons_of_pos (by simp), hnone]

theorem writable_toJson (o : Operation) : (toJson o).Writable := by
  obtain ⟨read, -, hby⟩ := o.exists_readBy
  refine .object fun m hm => ?_
  rcases List.mem_cons.mp hm with rfl | hm
  · exact .string o.name
  · exact (hby.bounded m hm).1

theorem depth_toJson (o : Operation) : (toJson o).depth ≤ 3 := by
  obtain ⟨read, -, hby⟩ := o.exists_readBy
  refine Nat.succ_le_succ (Json.memberDepth_le fun m hm => ?_)
  rcases List.mem_cons.mp hm with rfl | hm
  · exact Nat.zero_le 2
  · exact (hby.bounded m hm).2

/-- The text of an operation spells it. -/
theorem spelled_write (o : Operation) :
    Json.Lexeme.Spelled (write o).toList (toJson o).lexemes := (writable_toJson o).spelled

theorem parse_write (o : Operation) : parse (write o) = .ok o := by
  apply parse_request (says_toJson o) (spelled_write o)
  exact (depth_toJson o).trans (by decide)

/-- An operation is written as an object that begins with its name, the name is one of the catalog,
and the text is read back as the operation. -/
theorem write_reads_back (o : Operation) :
    decodeText Demand.none .ok (write o) = .ok (.object ((tag, .string o.name) :: o.members)) ∧
      o.name ∈ Operation.names ∧ parse (write o) = .ok o := by
  have hdepth : (toJson o).depth ≤ deepest := (depth_toJson o).trans (by decide)
  exact ⟨decodeText_none_iff.mpr ⟨spelled_write o, hdepth⟩, name_mem_names o, parse_write o⟩

/-- The order of the members, white space, escapes, other members and defaults that are left out
make no difference: all texts that say an operation are read as the operation, and give the same
argument text as the one that is written. A text nested deeper than the bound is no value to the
reader at all, whatever it is read for (`decodeText_none_iff`). -/
theorem spellings_agree {text : String} (h : Says o v)
    (ht : Json.Lexeme.Spelled text.toList v.lexemes) (hd : v.depth ≤ deepest) :
    parse text = .ok o ∧ ∀ snapshot, render text snapshot = render (write o) snapshot := by
  have hparse := parse_request h ht hd
  refine ⟨hparse, fun snapshot => ?_⟩
  rw [render, render, hparse, parse_write]

/-- The name stands behind a field and a member without meaning, and two fields are left out. -/
def scatteredRevert : Json :=
  .object [("x", .array []), ("commit", .string "A"), ("operation", .string "revert")]

def scatteredRevertText : String :=
  "\x7b\"x\":\t[],\n\"commit\" :\"\\u0041\",\"operation\":\"revert\"\x7d"

theorem spelled_scatteredRevert :
    Json.Lexeme.Spelled scatteredRevertText.toList scatteredRevert.lexemes := by
  have hA : Json.Quoted.Spells ['A'] ['\\', 'u', '0', '0', '4', '1'] :=
    .cons (.unit (show Json.Quoted.HexUnit ['0', '0', '4', '1'] 0x41 from ⟨rfl, rfl⟩) rfl rfl) .nil
  have hblank : ∀ c ∈ [' '], Json.Lexeme.isSpace c :=
    List.forall_mem_singleton.mpr rfl
  have htab : ∀ c ∈ ['\t'], Json.Lexeme.isSpace c :=
    List.forall_mem_singleton.mpr rfl
  have hnewline : ∀ c ∈ ['\n'], Json.Lexeme.isSpace c :=
    List.forall_mem_singleton.mpr rfl
  have hnil : Json.Lexeme.Spelled [] [] := .nil fun _ hc => absurd hc List.not_mem_nil
  have hclose := Json.spelled_mark (c := '\x7d') (l := .closeObject) (by simp [Json.Lexeme.marks])
    hnil
  have hname := Json.spelled_mark (c := ',') (l := .comma) (by simp [Json.Lexeme.marks])
    (Json.spelled_text (s := "operation")
      (Json.spelled_mark (c := ':') (l := .colon) (by simp [Json.Lexeme.marks])
        (Json.spelled_text (s := "revert") hclose)))
  have hcommit := (Json.spelled_text (s := "commit")
    ((Json.spelled_mark (c := ':') (l := .colon) (by simp [Json.Lexeme.marks])
      (Json.spelled_token (.text hA) hname)).spaced hblank)).spaced hnewline
  have hitems := (Json.spelled_mark (c := '[') (l := .openArray) (by simp [Json.Lexeme.marks])
    (Json.spelled_mark (c := ']') (l := .closeArray) (by simp [Json.Lexeme.marks])
      (Json.spelled_mark (c := ',') (l := .comma) (by simp [Json.Lexeme.marks]) hcommit))).spaced
    htab
  exact Json.spelled_mark (c := '\x7b') (l := .openObject) (by simp [Json.Lexeme.marks])
    (Json.spelled_text (s := "x")
      (Json.spelled_mark (c := ':') (l := .colon) (by simp [Json.Lexeme.marks]) hitems))

/-- A request with its name behind the fields and behind a member of no meaning. -/
theorem spellings_agree_revert :
    parse scatteredRevertText = .ok (.revert ⟨"A", false, 0⟩) ∧
      ∀ snapshot, render scatteredRevertText snapshot =
        render (write (.revert ⟨"A", false, 0⟩)) snapshot := by
  have hsays : Says (.revert ⟨"A", false, 0⟩) scatteredRevert :=
    .object rfl ⟨.inl rfl, .inr ⟨rfl, rfl⟩, .inr ⟨rfl, rfl⟩, trivial⟩
  exact spellings_agree hsays spelled_scatteredRevert (by decide)

end GitInvocation.Request
