import GitInvocation.Json.Record
import GitInvocation.Proofs.Json.Writing

/-!
# Formats and records that read what they write

A format is lawful when it reads back every value that it writes, and writes no more brackets into
each other than a bound says. A record is read from an object in which each field stands once, in
any place and among any other members, or not at all where its value is the default; and from an
array in which the fields at the end are left out where their values are the defaults.
-/
namespace GitInvocation.Json

/-- What is written is read back and can be spelled, with at most `n` brackets open at a time. -/
structure Format.Lawful {α : Type} (n : Nat) (f : Format α) : Prop where
  decode_encode : ∀ a, f.decode (f.encode a) = .ok a
  writable : ∀ a, (f.encode a).Writable
  depth_le : ∀ a, (f.encode a).depth ≤ n

/-- No value is written as null. -/
def Format.Given {α : Type} (f : Format α) : Prop := ∀ a, f.encode a ≠ .null

namespace Format

variable {α : Type} {n : Nat}

theorem lawful_bool : bool.Lawful n :=
  ⟨fun _ => rfl, fun b => .bool b, fun _ => Nat.zero_le n⟩

theorem lawful_string : string.Lawful n :=
  ⟨fun _ => rfl, fun s => .string s, fun _ => Nat.zero_le n⟩

theorem lawful_uint32 : uint32.Lawful n := by
  refine ⟨fun a => ?_, fun a => .natural ?_, fun _ => Nat.zero_le n⟩
  · have ha : a.toNat < Nat.pow 2 32 := a.toNat_lt
    show (decodeNat 32 (.integer a.toNat)).map UInt32.ofNat = .ok a
    rw [decodeNat, Int.toNat_natCast, if_pos ⟨Int.natCast_nonneg _, ha⟩]
    exact congrArg Except.ok UInt32.ofNat_toNat
  · have ha : a.toNat < 2 ^ 32 := a.toNat_lt
    exact Nat.le_trans ha.le (by decide)

theorem lawful_optional {f : Format α} (h : f.Lawful n) (hg : f.Given) :
    f.optional.Lawful n := by
  refine ⟨fun a => ?_, fun a => ?_, fun a => ?_⟩
  · cases a with
    | none => rfl
    | some a =>
      have hd : (optional f).decode (f.encode a) = (f.decode (f.encode a)).map some := by
        cases he : f.encode a with
        | null => exact absurd he (hg a)
        | _ => rfl
      show (optional f).decode (f.encode a) = _
      rw [hd, h.decode_encode]
      rfl
  · cases a with
    | none => exact .null
    | some a => exact h.writable a
  · cases a with
    | none => exact Nat.zero_le n
    | some a => exact h.depth_le a

theorem mapM_decode {f : Format α} (h : f.Lawful n) (as : List α) :
    (as.map f.encode).mapM f.decode = .ok as := by
  induction as with
  | nil => rfl
  | cons a as ih =>
    rw [List.map_cons, List.mapM_cons, h.decode_encode, ih]
    rfl

theorem lawful_list {f : Format α} (h : f.Lawful n) : f.list.Lawful (n + 1) := by
  refine ⟨mapM_decode h, fun as => .array fun v hv => ?_, fun as => ?_⟩
  · obtain ⟨a, -, rfl⟩ := List.mem_map.mp hv
    exact h.writable a
  · refine Nat.succ_le_succ (itemDepth_le fun v hv => ?_)
    obtain ⟨a, -, rfl⟩ := List.mem_map.mp hv
    exact h.depth_le a

/-- A choice between variants without content is lawful when each is found under its name. -/
theorem lawful_choice {c : Choice α} (name : α → String) (he : ∀ a, c.encode a = .string (name a))
    (hf : ∀ a, c.find (name a) = .ok (.plain a)) : c.format.Lawful n := by
  have hencode : ∀ a, c.format.encode a = .string (name a) := he
  refine ⟨fun a => ?_, fun a => ?_, fun a => ?_⟩
  · rw [hencode]
    show (c.find (name a)).bind Choice.bare = .ok a
    rw [hf]
    rfl
  · rw [hencode]
    exact .string (name a)
  · rw [hencode]
    exact Nat.zero_le n

end Format

namespace Layout

variable {n : Nat} {short : DecodeError}

def names : {ρ σ : Type} → Layout ρ σ → List String
  | _, _, .done => []
  | _, _, .field name _ _ rest => name :: names rest

/-- Every field has a lawful format. -/
def Lawful (n : Nat) : {ρ σ : Type} → Layout ρ σ → Prop
  | _, _, .done => True
  | _, _, .field _ format _ rest => format.Lawful n ∧ Lawful n rest

theorem Lawful.done : Lawful n .done := trivial

theorem Lawful.needs {α ρ σ : Type} {name : String} {format : Format α} {rest : Layout ρ σ}
    (h : format.Lawful n) (hr : rest.Lawful n) : (needs name format rest).Lawful n := ⟨h, hr⟩

theorem Lawful.takes {α ρ σ : Type} {name : String} {format : Format α} {default : α}
    {rest : Layout ρ σ} (h : format.Lawful n) (hr : rest.Lawful n) :
    (takes name format default rest).Lawful n := ⟨h, hr⟩

/-- Each field of the row stands once among the members, or not at all where its value is the
default. Other members may be anything. -/
def Gives (members : List (String × Json)) : {ρ σ : Type} → Layout ρ σ → ρ → Prop
  | _, _, .done, _ => True
  | _, _, .field name format default? rest, (a, row) =>
    (members.filter (fun m => m.1 = name) = [(name, format.encode a)] ∨
      members.filter (fun m => m.1 = name) = [] ∧ default? = some a) ∧ Gives members rest row

/-- The items are the fields of the row in their order, without some at the end whose values are
the defaults. -/
def GivesItems : {ρ σ : Type} → Layout ρ σ → ρ → List Json → Prop
  | _, _, .done, _, items => items = []
  | _, _, .field _ _ default? rest, (a, row), [] => default? = some a ∧ GivesItems rest row []
  | _, _, .field _ format _ rest, (a, row), v :: items =>
    v = format.encode a ∧ GivesItems rest row items

theorem Gives.congr {members others : List (String × Json)} {ρ σ : Type} {l : Layout ρ σ} {row : ρ}
    (h : Gives members l row)
    (hm : ∀ name ∈ l.names, others.filter (fun m => m.1 = name) =
      members.filter fun m => m.1 = name) : Gives others l row := by
  induction l with
  | done => trivial
  | field name format default? rest ih =>
    obtain ⟨a, row⟩ := row
    obtain ⟨hfield, hrest⟩ := h
    refine ⟨?_, ih hrest fun n hn => hm n (List.mem_cons_of_mem name hn)⟩
    rw [hm name List.mem_cons_self]
    exact hfield

/-- Members of other names may be left out. -/
theorem filter_other (members : List (String × Json)) {name own : String} (h : name ≠ own) :
    (members.filter fun m => m.1 ≠ own).filter (fun m => m.1 = name) =
      members.filter fun m => m.1 = name := by
  rw [List.filter_filter]
  refine List.filter_congr fun m _ => ?_
  by_cases hm : m.1 = name
  · simp [hm, h]
  · simp [hm]

section Members

variable {α ρ σ : Type} {own : String} {format : Format α} {default? : Option α}
  {rest : Layout ρ σ} {slot : Option α} {slots filled : σ} {members : List (String × Json)}

theorem put_other {name : String} (h : name ≠ own) (v : Json) :
    put name v (.field own format default? rest) (slot, slots) =
      (put name v rest slots).map fun slots => (slot, slots) := by
  rw [put.eq_def]
  exact if_neg h

/-- A field that is not among the members keeps its slot. -/
theorem putAll_absent (hm : members.filter (fun m => m.1 = own) = [])
    (h : putAll rest (members.filter fun m => m.1 ≠ own) slots = .ok filled) :
    putAll (.field own format default? rest) members (slot, slots) = .ok (slot, filled) := by
  induction members generalizing slots with
  | nil =>
    obtain rfl := Except.ok.inj h
    rfl
  | cons m members ih =>
    obtain ⟨name, v⟩ := m
    have hname : name ≠ own := by
      rintro rfl
      simp at hm
    have htail : members.filter (fun m => m.1 = own) = [] := by
      rwa [List.filter_cons_of_neg (by simpa using hname)] at hm
    rw [List.filter_cons_of_pos (by simpa using hname), putAll] at h
    rw [putAll, put_other hname]
    cases hp : put name v rest slots with
    | error e =>
      rw [hp] at h
      exact absurd h (by simp [Except.bind])
    | ok next =>
      rw [hp] at h
      exact ih htail h

/-- A field that stands once among the members fills its slot. -/
theorem putAll_once {v : Json} {a : α} (hm : members.filter (fun m => m.1 = own) = [(own, v)])
    (hv : format.decode v = .ok a)
    (h : putAll rest (members.filter fun m => m.1 ≠ own) slots = .ok filled) :
    putAll (.field own format default? rest) members (none, slots) = .ok (some a, filled) := by
  induction members generalizing slots with
  | nil => exact absurd hm (by simp)
  | cons m members ih =>
    obtain ⟨name, w⟩ := m
    by_cases hname : name = own
    · subst hname
      rw [List.filter_cons_of_pos (by simp), List.cons.injEq, Prod.mk.injEq] at hm
      obtain ⟨⟨-, rfl⟩, htail⟩ := hm
      rw [List.filter_cons_of_neg (by simp)] at h
      rw [putAll, put, if_pos rfl, hv]
      exact putAll_absent htail h
    · rw [List.filter_cons_of_neg (by simpa using hname)] at hm
      rw [List.filter_cons_of_pos (by simpa using hname), putAll] at h
      rw [putAll, put_other hname]
      cases hp : put name w rest slots with
      | error e =>
        rw [hp] at h
        exact absurd h (by simp [Except.bind])
      | ok next =>
        rw [hp] at h
        exact ih hm h

end Members

theorem complete_putAll {ρ σ : Type} {l : Layout ρ σ} {row : ρ} {members : List (String × Json)}
    (hl : l.Lawful n) (hn : l.names.Nodup) (h : Gives members l row) :
    ∃ slots, putAll l members (unfilled l) = .ok slots ∧ complete l slots = .ok row := by
  induction l generalizing members with
  | done =>
    refine ⟨(), ?_, rfl⟩
    induction members with
    | nil => rfl
    | cons m members ih => exact ih trivial
  | field own format default? rest ih =>
    obtain ⟨a, row⟩ := row
    obtain ⟨hformat, hrest⟩ := hl
    obtain ⟨hown, hnames⟩ := List.nodup_cons.mp hn
    obtain ⟨hfield, hgives⟩ := h
    have hothers : Gives (members.filter fun m => m.1 ≠ own) rest row :=
      hgives.congr fun name hm => filter_other members fun he => hown (he ▸ hm)
    obtain ⟨slots, hput, hcomplete⟩ := ih hrest hnames hothers
    rcases hfield with hm | ⟨hm, hd⟩
    · refine ⟨(some a, slots), putAll_once hm (hformat.decode_encode a) hput, ?_⟩
      rw [complete, Option.some_or]
      dsimp only
      rw [hcomplete]
      rfl
    · refine ⟨(none, slots), putAll_absent hm hput, ?_⟩
      rw [complete, hd, Option.none_or]
      dsimp only
      rw [hcomplete]
      rfl

/-- A row is read from members that give it. -/
theorem ofMembers_of_gives {ρ σ : Type} {l : Layout ρ σ} {row : ρ}
    {members : List (String × Json)} (hl : l.Lawful n) (hn : l.names.Nodup)
    (h : Gives members l row) : l.ofMembers members = .ok row := by
  obtain ⟨slots, hput, hcomplete⟩ := complete_putAll hl hn h
  rw [ofMembers, hput]
  exact hcomplete

/-- A row is read from items that give it. -/
theorem ofItems_of_gives {ρ σ : Type} {l : Layout ρ σ} {row : ρ} {items : List Json}
    (hl : l.Lawful n) (h : GivesItems l row items) : l.ofItems short items = .ok (row, []) := by
  induction l generalizing items with
  | done =>
    rw [show items = [] from h]
    rfl
  | field own format default? rest ih =>
    obtain ⟨a, row⟩ := row
    obtain ⟨hformat, hrest⟩ := hl
    cases items with
    | nil =>
      obtain ⟨rfl, hitems⟩ := h
      rw [ofItems, ih hrest hitems]
      rfl
    | cons v items =>
      obtain ⟨rfl, hitems⟩ := h
      rw [ofItems, hformat.decode_encode, Except.bind, ih hrest hitems]
      rfl

theorem mem_names {ρ σ : Type} {l : Layout ρ σ} {row : ρ} {m : String × Json}
    (h : m ∈ l.members row) : m.1 ∈ l.names := by
  induction l with
  | done => exact absurd h List.not_mem_nil
  | field own format default? rest ih =>
    obtain ⟨a, row⟩ := row
    rcases List.mem_cons.mp h with rfl | hm
    · exact List.mem_cons_self
    · exact List.mem_cons_of_mem own (ih hm)

/-- What a row is written as gives the row. -/
theorem gives_members {ρ σ : Type} (l : Layout ρ σ) (hn : l.names.Nodup) (row : ρ) :
    Gives (l.members row) l row := by
  induction l with
  | done => trivial
  | field own format default? rest ih =>
    obtain ⟨a, row⟩ := row
    obtain ⟨hown, hnames⟩ := List.nodup_cons.mp hn
    have hnone : (rest.members row).filter (fun m => m.1 = own) = [] := by
      rw [List.filter_eq_nil_iff]
      intro m hm he
      exact hown (of_decide_eq_true he ▸ mem_names hm)
    refine ⟨.inl ?_, (ih hnames row).congr fun name hm => ?_⟩
    · rw [members, List.filter_cons_of_pos (by simp), hnone]
    · have hne : own ≠ name := fun he => hown (he ▸ hm)
      rw [members, List.filter_cons_of_neg (by simpa using hne)]

theorem writable_members {ρ σ : Type} {l : Layout ρ σ} (hl : l.Lawful n) (row : ρ) :
    ∀ m ∈ l.members row, m.2.Writable ∧ m.2.depth ≤ n := by
  induction l with
  | done => exact fun _ hm => absurd hm List.not_mem_nil
  | field own format default? rest ih =>
    obtain ⟨a, row⟩ := row
    obtain ⟨hformat, hrest⟩ := hl
    intro m hm
    rcases List.mem_cons.mp hm with rfl | hm
    · exact ⟨hformat.writable a, hformat.depth_le a⟩
    · exact ih hrest row m hm

end Layout

/-- A record with lawful fields of different names. -/
structure Record.Lawful {α : Type} (n : Nat) (r : Record α) : Prop where
  fields : r.layout.Lawful n
  distinct : r.layout.names.Nodup

namespace Record

variable {α : Type} {n : Nat} {r : Record α}

/-- The members give the fields of a value. -/
def Gives (r : Record α) (a : α) (members : List (String × Json)) : Prop :=
  Layout.Gives members r.layout (r.toRow a)

def GivesItems (r : Record α) (a : α) (items : List Json) : Prop :=
  r.layout.GivesItems (r.toRow a) items

theorem decode_members (hr : r.Lawful n) {a : α} {members : List (String × Json)}
    (h : r.Gives a members) : r.decode (.members members) = .ok a := by
  rw [decode, Layout.ofMembers_of_gives hr.fields hr.distinct h, Except.map, r.ofRow_toRow]

theorem decode_items (hr : r.Lawful n) {a : α} {items : List Json} (h : r.GivesItems a items) :
    r.decode (.items items) = .ok a := by
  rw [decode, Layout.ofItems_of_gives hr.fields h, Except.bind]
  exact congrArg Except.ok (r.ofRow_toRow a)

theorem gives_members (hr : r.Lawful n) (a : α) : r.Gives a (r.members a) :=
  Layout.gives_members r.layout hr.distinct (r.toRow a)

theorem lawful_format (hr : r.Lawful n) : r.format.Lawful (n + 1) := by
  have hm := fun a => Layout.writable_members hr.fields (r.toRow a)
  refine ⟨fun a => decode_members hr (gives_members hr a), fun a => .object fun m h => (hm a m h).1,
    fun a => Nat.succ_le_succ (memberDepth_le fun m h => (hm a m h).2)⟩

end Record

end GitInvocation.Json
