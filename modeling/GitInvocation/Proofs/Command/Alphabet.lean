import GitInvocation.Proofs.Command.Drafting
import GitInvocation.Proofs.Words.Comment

/-!
# The characters of a draft

Commands, flags, settings and counts are written in a few characters, which any alphabet here has.
The text of a draft is in an alphabet when all that was asked of the draft is. Nothing else gets
into it: a quote around a value and a space between two parts are in every alphabet, and a path
brings slashes where it had backslashes.
-/
namespace GitInvocation

/-- The characters of commands, flags, settings and counts: the printable ones of ASCII, except
for the backslash. -/
def isLiteral (c : Char) : Bool := ' ' ≤ c && c ≤ '~' && c ≠ '\\'

/-- A set of characters that has all literal ones. -/
structure Alphabet where
  Mem : Char → Prop
  mem_of_isLiteral : ∀ c, isLiteral c → Mem c

namespace Alphabet

/-- All characters but one. -/
def without (mark : Char) (h : isLiteral mark = false) : Alphabet where
  Mem c := c ≠ mark
  mem_of_isLiteral c hc he := by
    rw [he, h] at hc
    exact Bool.noConfusion hc

def Spells (a : Alphabet) (s : String) : Prop := ∀ c ∈ s.toList, a.Mem c

theorem spells_without {mark : Char} {h : isLiteral mark = false} {s : String} :
    (without mark h).Spells s ↔ mark ∉ s.toList :=
  ⟨fun hs hm => hs mark hm rfl, fun hs _ hc he => hs (he ▸ hc)⟩

variable {a : Alphabet} {s t : String}

/-- A text that is written out, by the characters of its literal. -/
theorem spells_literal (l : List Char) (h : l.all isLiteral) : a.Spells (String.ofList l) := by
  intro c hc
  rw [String.toList_ofList] at hc
  exact a.mem_of_isLiteral c (List.all_eq_true.mp h c hc)

theorem spells_append (hs : a.Spells s) (ht : a.Spells t) : a.Spells (s ++ t) := by
  intro c hc
  rw [String.toList_append, List.mem_append] at hc
  exact hc.elim (hs c) (ht c)

theorem spells_quoted (h : a.Spells s) : a.Spells (quoted s) :=
  have hmark : a.Spells "\"" := spells_literal _ rfl
  spells_append (spells_append hmark h) hmark

theorem isLiteral_of_isDigit {c : Char} (h : c.isDigit) : isLiteral c := by
  have hback : c ≠ '\\' := by
    rintro rfl
    exact absurd h (by decide)
  rw [Char.isDigit, Bool.and_eq_true, decide_eq_true_eq, decide_eq_true_eq] at h
  have hlow : ' ' ≤ c := UInt32.le_trans (by decide) h.1
  have hhigh : c ≤ '~' := UInt32.le_trans h.2 (by decide)
  simp [isLiteral, hback, hlow, hhigh]

theorem spells_toString (n : Nat) : a.Spells (toString n) := fun c hc =>
  a.mem_of_isLiteral c (isLiteral_of_isDigit (Words.isDigit_of_mem_toString hc))

theorem spells_countFlag? {flag : String} (h : a.Spells flag) (n : UInt32) :
    ∀ v ∈ Draft.countFlag? flag n, a.Spells v := by
  intro v hv
  rw [Draft.countFlag?] at hv
  split at hv
  · exact absurd hv (by simp)
  · obtain rfl := Option.some.inj hv
    exact spells_append h (spells_toString n.toNat)

theorem spells_trim (h : a.Spells s) : a.Spells (Text.trim s) := by
  intro c hc
  rw [Text.trim, String.toList_ofList] at hc
  exact h c (Text.mem_trimChars hc)

/-- A path needs all its characters, but no backslash. -/
theorem spells_posixPath (h : ∀ c ∈ s.toList, c ≠ '\\' → a.Mem c) : a.Spells (posixPath s) := by
  intro c hc
  rw [posixPath, String.toList_map, List.mem_map] at hc
  obtain ⟨d, hd, rfl⟩ := hc
  split
  · exact a.mem_of_isLiteral '/' (by decide)
  · next hb => exact h d hd hb

theorem spells_intercalate {parts : List String} (h : ∀ part ∈ parts, a.Spells part) :
    a.Spells (" ".intercalate parts) :=
  Words.forall_intercalate (a.mem_of_isLiteral ' ' (by decide)) h

/-- A flag out of a fixed set is a literal. -/
theorem spells_flag? {flag? : Option String} (h : flag?.all fun flag => flag.toList.all isLiteral) :
    ∀ flag ∈ flag?, a.Spells flag := by
  rintro flag rfl
  have := spells_literal (a := a) flag.toList h
  rwa [String.ofList_toList] at this

end Alphabet

open Alphabet

/-- What is written for the token is in the alphabet. -/
def Token.SpelledIn (t : Token) (a : Alphabet) : Prop := ∀ part ∈ t.text?, a.Spells part

namespace Token

variable {a : Alphabet} {value : String}

theorem spelledIn_raw (h : a.Spells value) : (raw value).SpelledIn a := by
  intro part hp
  rw [text?] at hp
  split at hp
  · exact absurd hp (by simp)
  · exact Option.some.inj hp ▸ h

theorem spelledIn_quoted (h : a.Spells value) : (quoted value).SpelledIn a := by
  intro part hp
  rw [text?, quoted?] at hp
  split at hp
  · exact absurd hp (by simp)
  · exact Option.some.inj hp ▸ spells_quoted h

theorem spelledIn_path (h : a.Spells (posixPath value)) : (path value).SpelledIn a :=
  spelledIn_quoted h

end Token

namespace Draft

/-- All parts of the draft are in the alphabet. -/
def SpelledIn (d : Draft) (a : Alphabet) : Prop := ∀ part ∈ d.parts, a.Spells part

variable {a : Alphabet} {d : Draft}

theorem SpelledIn.text (h : d.SpelledIn a) : a.Spells d.text := spells_intercalate h

theorem spelledIn_of_tokens_nil (ht : d.tokens = []) (hc : a.Spells d.command)
    (ho : ∀ o ∈ d.overrides, a.Spells o.text) : d.SpelledIn a := by
  have hflag : a.Spells "-c" := spells_literal _ rfl
  have hswitch : a.Spells noLocksSwitch := spells_literal _ rfl
  intro part hp
  rw [parts, ht] at hp
  simp only [List.mem_append, List.mem_flatMap, List.mem_cons, List.filterMap_nil,
    List.not_mem_nil, or_false] at hp
  rcases hp with (hp | ⟨o, hm, rfl | rfl⟩) | rfl
  · split at hp
    · exact List.mem_singleton.mp hp ▸ hswitch
    · exact absurd hp List.not_mem_nil
  · exact hflag
  · exact ho o hm
  · exact hc

section Start

variable {command : String} (hc : a.Spells command)
include hc

theorem spelledIn_start : (start command).SpelledIn a :=
  spelledIn_of_tokens_nil rfl hc fun _ h => absurd h List.not_mem_nil

theorem spelledIn_noOptionalLocks (on : Bool) :
    ((start command).noOptionalLocks on).SpelledIn a :=
  spelledIn_of_tokens_nil rfl hc fun _ h => absurd h List.not_mem_nil

variable {items : List Override} (ho : ∀ o ∈ items, a.Spells o.text)
include ho

theorem spelledIn_configure : ((start command).configure items).SpelledIn a :=
  spelledIn_of_tokens_nil rfl hc ho

theorem spelledIn_noOptionalLocks_configure (on : Bool) :
    (((start command).noOptionalLocks on).configure items).SpelledIn a :=
  spelledIn_of_tokens_nil rfl hc ho

end Start

variable {value : String}

theorem SpelledIn.add (h : d.SpelledIn a) {items : List Token} (hi : ∀ t ∈ items, t.SpelledIn a) :
    (d.add items).SpelledIn a := by
  intro part hp
  rw [parts_add, List.mem_append, List.mem_filterMap] at hp
  rcases hp with hp | ⟨t, ht, hp⟩
  · exact h part hp
  · exact hi t ht part hp

theorem SpelledIn.token (h : d.SpelledIn a) {t : Token} (ht : t.SpelledIn a) :
    (d.add [t]).SpelledIn a := h.add fun _ hm => List.mem_singleton.mp hm ▸ ht

theorem SpelledIn.raw (h : d.SpelledIn a) (hv : a.Spells value) : (d.raw value).SpelledIn a :=
  h.token (Token.spelledIn_raw hv)

theorem SpelledIn.rawIf (h : d.SpelledIn a) (on : Bool) (hv : a.Spells value) :
    (d.rawIf on value).SpelledIn a := by
  cases on
  · exact h
  · exact h.raw hv

theorem SpelledIn.rawEither (h : d.SpelledIn a) (on : Bool) {yes no : String} (hy : a.Spells yes)
    (hn : a.Spells no) : (d.rawEither on yes no).SpelledIn a := by
  cases on
  · exact h.raw hn
  · exact h.raw hy

theorem SpelledIn.raws (h : d.SpelledIn a) {values : List String} (hv : ∀ v ∈ values, a.Spells v) :
    (d.raws values).SpelledIn a := h.add <| List.forall_mem_map.mpr fun v hm =>
  Token.spelledIn_raw (hv v hm)

theorem SpelledIn.raw? (h : d.SpelledIn a) {value : Option String}
    (hv : ∀ v ∈ value, a.Spells v) : (d.raw? value).SpelledIn a :=
  h.raws fun v hm => hv v (Option.mem_toList.mp hm)

theorem SpelledIn.quoted (h : d.SpelledIn a) (hv : a.Spells value) :
    (d.quoted value).SpelledIn a := h.token (Token.spelledIn_quoted hv)

theorem SpelledIn.quoted? (h : d.SpelledIn a) {value : Option String}
    (hv : ∀ v ∈ value, a.Spells v) : (d.quoted? value).SpelledIn a :=
  h.add <| List.forall_mem_map.mpr fun v hm =>
    Token.spelledIn_quoted (hv v (Option.mem_toList.mp hm))

theorem SpelledIn.path (h : d.SpelledIn a) (hv : a.Spells (posixPath value)) :
    (d.path value).SpelledIn a := h.token (Token.spelledIn_path hv)

theorem SpelledIn.paths (h : d.SpelledIn a) {values : List String}
    (hv : ∀ v ∈ values, a.Spells (posixPath v)) : (d.paths values).SpelledIn a :=
  h.add <| List.forall_mem_map.mpr fun v hm => Token.spelledIn_path (hv v hm)

theorem SpelledIn.path? (h : d.SpelledIn a) {value : Option String}
    (hv : ∀ v ∈ value, a.Spells (posixPath v)) : (d.path? value).SpelledIn a :=
  h.paths fun v hm => hv v (Option.mem_toList.mp hm)

end Draft

end GitInvocation
