import GitInvocation.Words

/-!
# Splitting text that was joined from parts

The reader of words is a transducer: one character moves it to the next place and adds to the
words. A part that splits on its own and leaves no comment open is settled, and settled parts
with a space between them split independently of each other. A comment that a part leaves open
would swallow the parts behind it, so splitting alone is not enough.
-/
namespace GitInvocation.Words

/-- The place behind one character. -/
def next : Place → Char → Place
  | .gap, c =>
    if isGap c then .gap
    else if c = '#' then .comment
    else if c = '"' then .double
    else if c = '\x27' then .single
    else if c = '\\' then .bareEscape
    else .bare
  | .comment, c => if c = '\n' then .gap else .comment
  | .bare, c =>
    if isGap c then .gap
    else if c = '"' then .double
    else if c = '\x27' then .single
    else if c = '\\' then .bareEscape
    else .bare
  | .bareEscape, _ => .bare
  | .single, c => if c = '\x27' then .bare else .single
  | .double, c => if c = '"' then .bare else if c = '\\' then .doubleEscape else .double
  | .doubleEscape, _ => .double

/-- What one character adds to the words that follow it. -/
def emit : Place → Char → List (List Char) → List (List Char)
  | .gap, c =>
    if isGap c ∨ c = '#' ∨ c = '"' ∨ c = '\x27' ∨ c = '\\' then id else extend [c]
  | .comment, _ => id
  | .bare, c =>
    if isGap c then ([] :: ·)
    else if c = '"' ∨ c = '\x27' ∨ c = '\\' then id
    else extend [c]
  | .bareEscape, c => if c = '\n' then id else extend [c]
  | .single, c => if c = '\x27' then id else extend [c]
  | .double, c => if c = '"' ∨ c = '\\' then id else extend [c]
  | .doubleEscape, c =>
    if escapable c then extend [c] else if c = '\n' then id else extend ['\\', c]

def after (p : Place) (s : List Char) : Place := s.foldl next p

/-- What a text adds to the words that follow it. -/
def emits : Place → List Char → List (List Char) → List (List Char)
  | _, [] => id
  | p, c :: s => emit p c ∘ emits (next p c) s

/-- True of the places within a word, where the next character may still extend it. -/
def Place.inside : Place → Bool
  | .gap | .comment => false
  | _ => true

@[simp] theorem after_nil (p : Place) : after p [] = p := rfl

@[simp] theorem after_cons (p : Place) (c : Char) (s : List Char) :
    after p (c :: s) = after (next p c) s := rfl

theorem after_append (p : Place) (s t : List Char) : after p (s ++ t) = after (after p s) t :=
  List.foldl_append

theorem scan_cons (p : Place) (c : Char) (s : List Char) :
    scan p (c :: s) = (scan (next p c) s).map (emit p c) := by
  cases p <;> simp only [scan, next, emit] <;> (repeat' split) <;> simp_all

theorem scan_append (p : Place) (s t : List Char) :
    scan p (s ++ t) = (scan (after p s) t).map (emits p s) := by
  induction s generalizing p with
  | nil => simp [emits]
  | cons c s ih =>
    rw [List.cons_append, scan_cons, ih, Option.map_map, after_cons]
    rfl

theorem extend_extend (a b : List Char) (ws : List (List Char)) :
    extend a (extend b ws) = extend (a ++ b) ws := by
  cases ws <;> simp [extend]

theorem extend_ne_nil (a : List Char) (ws : List (List Char)) : extend a ws ≠ [] := by
  cases ws <;> simp [extend]

theorem extend_append {ws : List (List Char)} (a : List Char) (h : ws ≠ [])
    (more : List (List Char)) : extend a (ws ++ more) = extend a ws ++ more := by
  cases ws with
  | nil => exact absurd rfl h
  | cons w ws => rfl

/-- Only a gap ends a word. -/
theorem inside_next {p : Place} (hp : p.inside) (c : Char) :
    (next p c).inside ∨ p = .bare ∧ isGap c := by
  cases p <;> simp only [next] <;> (repeat' split) <;> simp_all [Place.inside]

theorem emit_ne_nil (p : Place) (c : Char) {ws : List (List Char)} (h : ws ≠ []) :
    emit p c ws ≠ [] := by
  cases p <;> simp only [emit] <;> (repeat' split) <;> simp_all [extend_ne_nil]

/-- Within a word there is a word to be read, if only its empty rest. -/
theorem scan_ne_nil {p : Place} {s : List Char} {ws : List (List Char)} (hp : p.inside)
    (h : scan p s = some ws) : ws ≠ [] := by
  induction s generalizing p ws with
  | nil =>
    cases p with
    | bare => obtain rfl := Option.some.inj h; exact List.cons_ne_nil _ _
    | _ => simp_all [scan, Place.inside]
  | cons c s ih =>
    rw [scan_cons] at h
    obtain ⟨vs, hv, rfl⟩ := Option.map_eq_some_iff.mp h
    rcases inside_next hp c with hn | ⟨rfl, hg⟩
    · exact emit_ne_nil p c (ih hn hv)
    · simp [emit, hg]

/-- A character adds to the words at hand and leaves those behind them alone. -/
theorem emit_append {p : Place} {c : Char} {ws : List (List Char)}
    (h : (next p c).inside → ws ≠ []) (more : List (List Char)) :
    emit p c (ws ++ more) = emit p c ws ++ more := by
  cases p <;> simp only [next, emit] at h ⊢ <;> (repeat' split) <;>
    simp_all [Place.inside, extend_append]

/-- A text that splits has come to the end of a word, of a gap or of a comment. -/
theorem after_of_scan {p : Place} {s : List Char} {ws : List (List Char)}
    (h : scan p s = some ws) : after p s = .gap ∨ after p s = .bare ∨ after p s = .comment := by
  have hs := scan_append p s []
  rw [List.append_nil, h] at hs
  cases ha : after p s <;> simp_all [scan]

/-- A space behind a text that splits, with no comment left open, parts it from what follows. -/
theorem scan_append_space {p : Place} {s : List Char} {ws : List (List Char)}
    (h : scan p s = some ws) (hc : after p s ≠ .comment) (rest : List Char) :
    scan p (s ++ ' ' :: rest) = (scan .gap rest).map (ws ++ ·) := by
  induction s generalizing p ws with
  | nil =>
    cases p with
    | gap => obtain rfl := Option.some.inj h; simp [scan, isGap]
    | bare => obtain rfl := Option.some.inj h; simp [scan, isGap]
    | comment => exact absurd rfl hc
    | _ => simp [scan] at h
  | cons c s ih =>
    rw [scan_cons] at h
    obtain ⟨vs, hv, rfl⟩ := Option.map_eq_some_iff.mp h
    rw [List.cons_append, scan_cons, ih hv hc, Option.map_map]
    congr 1
    funext more
    exact emit_append (fun hn => scan_ne_nil hn hv) more

/-- The text splits on its own and leaves no comment open. -/
def Settled (text : String) (words : List String) : Prop :=
  scan .gap text.toList = some (words.map String.toList) ∧ after .gap text.toList ≠ .comment

/-- The text is a single word. -/
abbrev Word (text : String) : Prop := Settled text [text]

theorem Settled.words? {text : String} {ws : List String} (h : Settled text ws) :
    words? text = some ws := by
  rw [GitInvocation.words?, h.1]
  simp [Function.comp_def]

theorem settled_empty : Settled "" [] := ⟨rfl, by simp⟩

theorem Settled.eq_nil {ws : List String} (h : Settled "" ws) : ws = [] := by
  have := h.1
  simpa [scan] using this

theorem Settled.join {s t : String} {ws vs : List String} (hs : Settled s ws)
    (ht : Settled t vs) : Settled (s ++ " " ++ t) (ws ++ vs) := by
  have hl : (s ++ " " ++ t).toList = s.toList ++ ' ' :: t.toList := by simp
  constructor
  · rw [hl, scan_append_space hs.1 hs.2, ht.1]
    simp
  · rw [hl, after_append]
    have hg : next (after .gap s.toList) ' ' = .gap := by
      rcases after_of_scan hs.1 with h | h | h
      · rw [h]; rfl
      · rw [h]; rfl
      · exact absurd h hs.2
    rw [after_cons, hg]
    exact ht.2

/-- Settled parts, with the words of all of them. -/
inductive AllSettled : List String → List String → Prop
  | nil : AllSettled [] []
  | cons {part : String} {parts ws vs : List String} (head : Settled part ws)
      (tail : AllSettled parts vs) : AllSettled (part :: parts) (ws ++ vs)

theorem AllSettled.append {ps qs ws vs : List String} (hp : AllSettled ps ws)
    (hq : AllSettled qs vs) : AllSettled (ps ++ qs) (ws ++ vs) := by
  induction hp with
  | nil => exact hq
  | cons head tail ih => rw [List.cons_append, List.append_assoc]; exact .cons head ih

theorem AllSettled.single {part : String} {ws : List String} (h : Settled part ws) :
    AllSettled [part] ws := by
  simpa using AllSettled.cons h .nil

/-- Settled parts stay apart when they are joined by spaces. -/
theorem AllSettled.intercalate {parts ws : List String} (h : AllSettled parts ws) :
    Settled (" ".intercalate parts) ws := by
  induction h with
  | nil => rw [String.intercalate_nil]; exact settled_empty
  | @cons part parts ws vs head tail ih =>
    cases parts with
    | nil => cases tail; simpa using head
    | cons q qs => rw [String.intercalate_cons_cons]; exact head.join ih

end GitInvocation.Words
