import GitInvocation.Proofs.Operation.ArgvFidelity
import GitInvocation.Proofs.Request.Reading

/-!
# Tags among the listed refs

A filter decides twice what a listing of refs looks like. The places it names restrict the listing,
and without a place all refs are listed, tags among them. Whether it lets tags in decides how refs
are shown and sorted, and with tags the objects that they point to count. The two decisions agree
for every filter but one whose bits stand for no kind at all. It names no place and is not taken
for an empty one, so all refs are listed and tags are not resolved.
-/
namespace GitInvocation

open Draft (given)
open Words

/-- True of a word that restricts a listing of refs. -/
def isPlace (w : String) : Bool := "refs/".toList.isPrefixOf w.toList

namespace RefFilter

/-- A filter that has bits, and none that stands for a kind. -/
def Nameless (f : RefFilter) : Prop := f ≠ empty ∧ f.unnamed = f

instance (f : RefFilter) : Decidable f.Nameless := inferInstanceAs (Decidable (_ ∧ _))

theorem kinds_ofFin : ∀ n : Fin 256,
    (includesTags ⟨.ofFin n⟩ = false ∧ places ⟨.ofFin n⟩ = [] ↔ Nameless ⟨.ofFin n⟩) ∧
      (includesTags ⟨.ofFin n⟩ = false → "refs/tags/" ∉ places ⟨.ofFin n⟩) := by
  decide +kernel

/-- Only a filter without a kind lists all refs and leaves tags out. -/
theorem nameless_iff (f : RefFilter) : f.includesTags = false ∧ f.places = [] ↔ f.Nameless :=
  (kinds_ofFin f.bits.toFin).1

theorem tags_notMem_places {f : RefFilter} (h : f.includesTags = false) :
    "refs/tags/" ∉ f.places := (kinds_ofFin f.bits.toFin).2 h

end RefFilter

namespace ListRefs

/-- The format that shows a tag as the object it points to, as a word. -/
def targetWord : String :=
  "--format=" ++ ("%(if)%(authordate)%(then)%(objectname) %(refname)" ++
    "%(else)%(*objectname) %(*refname)%(end)")

def flatWord : String := "--format=%(objectname) %(refname)"

/-- Tags are resolved whenever all refs are listed: they are shown as the objects they point to, and
sorted by these objects first. Other refs are shown only where tags are kept out. -/
structure Resolving (r : ListRefs) (ws : List String) : Prop where
  shown : (∀ w ∈ ws, isPlace w = false) → targetWord ∈ ws ∧ flatWord ∉ ws
  sorted : (∀ w ∈ ws, isPlace w = false) → r.sortBy ≠ .unsorted →
    ∃ target key, r.sortBy.targetKey? = some target ∧ r.sortBy.key? = some key ∧
      [sortWord r.sortOrder ("*" ++ target), sortWord r.sortOrder key] <:+: ws
  flat : flatWord ∈ ws → (∃ w ∈ ws, isPlace w) ∧ "refs/tags/" ∉ ws

/-- How a word of a listing begins. -/
def opening (w : String) : List Char := w.toList.take 3

variable {r : ListRefs} {w : String}

theorem opening_append {a : String} (h : 3 ≤ a.toList.length) (b : String) :
    opening (a ++ b) = opening a := by
  rw [opening, opening, String.toList_append, List.take_append_of_le_length h]

theorem opening_of_isPlace (h : isPlace w) : opening w = ['r', 'e', 'f'] := by
  obtain ⟨rest, hw⟩ := List.isPrefixOf_iff_prefix.mp h
  rw [opening, ← hw]
  rfl

theorem opening_sortWords (h : w ∈ r.sortWords) : opening w = ['-', '-', 's'] := by
  have hword : ∀ key, opening (sortWord r.sortOrder key) = ['-', '-', 's'] := fun key =>
    opening_append (by decide) _
  rcases List.mem_append.mp h with h | h
  · obtain ⟨key, -, rfl⟩ := Option.map_eq_some_iff.mp (Option.mem_toList.mp h)
    exact hword _
  · obtain ⟨key, -, rfl⟩ := Option.map_eq_some_iff.mp (Option.mem_toList.mp h)
    exact hword _

theorem opening_count (h : w ∈ r.count.elim [] fun n => counted n ["--count=" ++ toString n]) :
    opening w = ['-', '-', 'c'] := by
  cases hc : r.count with
  | none =>
    rw [hc] at h
    exact absurd h List.not_mem_nil
  | some n =>
    rw [hc, Option.elim_some, counted] at h
    split at h
    · exact absurd h List.not_mem_nil
    · rw [List.mem_singleton.mp h]
      exact opening_append (by decide) _

theorem opening_targetWord : opening targetWord = ['-', '-', 'f'] := opening_append (by decide) _

theorem opening_flatWord : opening flatWord = ['-', '-', 'f'] := by decide

theorem formatWords_eq :
    r.formatWords = [if r.filter.includesTags then targetWord else flatWord] := by
  rw [formatWords]
  split <;> rfl

theorem isPlace_of_mem_places (h : w ∈ r.filter.places) : isPlace w := by
  obtain ⟨place, hp, rfl⟩ := List.mem_map.mp h
  have hkind := (List.mem_filter.mp hp).1
  simp only [List.mem_cons, List.not_mem_nil, or_false] at hkind
  rcases hkind with rfl | rfl | rfl <;> decide

/-- The format and the places are told from all other words by how they begin. -/
theorem mem_argv_iff (hw : opening w = ['-', '-', 'f'] ∨ opening w = ['r', 'e', 'f']) :
    w ∈ r.argv ↔ w ∈ r.formatWords ∨ w ∈ r.filter.places := by
  have hother : ∀ o, o ≠ ['-', '-', 'f'] ∧ o ≠ ['r', 'e', 'f'] → opening w ≠ o := by
    rintro o ho rfl
    exact hw.elim ho.1 ho.2
  simp only [argv, List.mem_append]
  constructor
  · rintro (((((hm | hm) | hm) | hm) | hm) | hm)
    · exact absurd (congrArg opening (Draft.mem_given_iff.mp hm).2) (hother _ (by decide))
    · exact absurd (congrArg opening (List.mem_singleton.mp hm)) (hother _ (by decide))
    · exact absurd (opening_sortWords hm) (hother _ (by decide))
    · exact .inl hm
    · exact absurd (opening_count hm) (hother _ (by decide))
    · exact .inr hm
  · rintro (hm | hm)
    · exact .inl (.inl (.inr hm))
    · exact .inr hm

theorem opening_formatWords (h : w ∈ r.formatWords) : opening w = ['-', '-', 'f'] := by
  rw [formatWords_eq, List.mem_singleton] at h
  rw [h]
  split
  · exact opening_targetWord
  · exact opening_flatWord

theorem place_mem_argv_iff (hw : isPlace w) : w ∈ r.argv ↔ w ∈ r.filter.places := by
  have hplace := opening_of_isPlace hw
  rw [mem_argv_iff (.inr hplace), or_iff_right]
  intro hm
  exact absurd ((opening_formatWords hm).symm.trans hplace) (by decide)

theorem format_mem_argv_iff (hw : opening w = ['-', '-', 'f']) :
    w ∈ r.argv ↔ w = if r.filter.includesTags then targetWord else flatWord := by
  rw [mem_argv_iff (.inl hw), formatWords_eq, List.mem_singleton, or_iff_left]
  intro hm
  exact absurd ((opening_of_isPlace (isPlace_of_mem_places hm)).symm.trans hw) (by decide)

theorem target_mem_argv_iff : targetWord ∈ r.argv ↔ r.filter.includesTags := by
  rw [format_mem_argv_iff opening_targetWord]
  cases r.filter.includesTags <;> simp [targetWord, flatWord]

theorem flat_mem_argv_iff : flatWord ∈ r.argv ↔ r.filter.includesTags = false := by
  rw [format_mem_argv_iff opening_flatWord]
  cases r.filter.includesTags <;> simp [targetWord, flatWord]

/-- All refs are listed when the filter names no place. -/
theorem no_place_iff : (∀ w ∈ r.argv, isPlace w = false) ↔ r.filter.places = [] := by
  constructor
  · intro hall
    refine List.eq_nil_iff_forall_not_mem.mpr fun w hm => ?_
    have hplace := isPlace_of_mem_places hm
    exact absurd hplace (by simp [hall w ((place_mem_argv_iff hplace).mpr hm)])
  · intro hnone w hm
    rw [← Bool.not_eq_true]
    intro hplace
    have hmem := (place_mem_argv_iff hplace).mp hm
    rw [hnone] at hmem
    exact absurd hmem List.not_mem_nil

/-- With tags the sorting by the objects that they point to stands in front of the other. -/
theorem sortWords_infix (htags : r.filter.includesTags) (hsort : r.sortBy ≠ .unsorted) :
    ∃ target key, r.sortBy.targetKey? = some target ∧ r.sortBy.key? = some key ∧
      [sortWord r.sortOrder ("*" ++ target), sortWord r.sortOrder key] <:+: r.argv := by
  obtain ⟨target, htarget⟩ : ∃ target, r.sortBy.targetKey? = some target := by
    cases hr : r.sortBy <;> first | exact absurd hr hsort | exact ⟨_, rfl⟩
  obtain ⟨key, hkey⟩ : ∃ key, r.sortBy.key? = some key := by
    cases hr : r.sortBy <;> first | exact absurd hr hsort | exact ⟨_, rfl⟩
  have hwords : r.sortWords =
      [sortWord r.sortOrder ("*" ++ target), sortWord r.sortOrder key] := by
    simp [sortWords, htarget, hkey, htags, Option.filter]
  refine ⟨target, key, htarget, hkey, ?_⟩
  rw [← hwords, argv]
  exact ⟨given r.noLocks "--no-optional-locks" ++ ["for-each-ref"],
    r.formatWords ++ (r.count.elim [] fun n => counted n ["--count=" ++ toString n]) ++
      r.filter.places, by simp⟩

theorem resolving_iff : r.Resolving r.argv ↔ ¬ r.filter.Nameless := by
  constructor
  · intro hres hnameless
    obtain ⟨htags, hnone⟩ := r.filter.nameless_iff.mpr hnameless
    have hshown := (hres.shown (no_place_iff.mpr hnone)).1
    rw [target_mem_argv_iff, htags] at hshown
    exact absurd hshown (by decide)
  · intro hnamed
    have htags : r.filter.places = [] → r.filter.includesTags := fun hnone => by
      rw [← Bool.not_eq_false]
      exact fun hout => hnamed (r.filter.nameless_iff.mp ⟨hout, hnone⟩)
    refine ⟨fun hall => ?_, fun hall => ?_, fun hflat => ?_⟩
    · have hin := htags (no_place_iff.mp hall)
      exact ⟨target_mem_argv_iff.mpr hin, by simp [flat_mem_argv_iff, hin]⟩
    · exact sortWords_infix (htags (no_place_iff.mp hall))
    · have hout := flat_mem_argv_iff.mp hflat
      obtain ⟨place, hm⟩ : ∃ place, place ∈ r.filter.places :=
        List.exists_mem_of_ne_nil _ fun hnone => hnamed (r.filter.nameless_iff.mp ⟨hout, hnone⟩)
      have hplace := isPlace_of_mem_places hm
      refine ⟨⟨place, (place_mem_argv_iff hplace).mpr hm, hplace⟩, ?_⟩
      rw [place_mem_argv_iff rfl]
      exact RefFilter.tags_notMem_places hout

end ListRefs

namespace Operation

/-- The law of listed refs. A listing resolves tags whenever it lists all refs, unless its filter
has bits and no kind. Any filter, such a one included, can be asked for. -/
theorem listed_refs_resolved_iff (r : ListRefs) (s : Snapshot) :
    (∃ text, Request.parse text = .ok (.listRefs r)) ∧
      ∃ text, (listRefs r).arguments s = .ok text ∧ words? text = some r.argv ∧
        (r.Resolving r.argv ↔ ¬ r.filter.Nameless) :=
  ⟨⟨_, Request.parse_write (.listRefs r)⟩, r.draft.text, rfl, r.reads_draft.text.words?,
    ListRefs.resolving_iff⟩

/-- The filter is written as the text `0x10`. -/
def namelessRefs : ListRefs := ⟨⟨0x10⟩, false, .unsorted, .ascending, none⟩

/-- A filter of a single bit that stands for no kind lists all refs and shows tags as they are. -/
theorem listed_refs_flat_namelessFilter : RefFilter.parse "0x10" = .ok namelessRefs.filter ∧
    (∃ text, Request.parse text = .ok (.listRefs namelessRefs)) ∧ ∃ text argv,
      (listRefs namelessRefs).arguments .empty = .ok text ∧ words? text = some argv ∧
      argv = ["for-each-ref", "--format=%(objectname) %(refname)"] ∧
      ¬ namelessRefs.Resolving argv := by
  refine ⟨by rfl, ⟨_, Request.parse_write _⟩,
    "for-each-ref --format=\"%(objectname) %(refname)\"",
    ["for-each-ref", "--format=%(objectname) %(refname)"], congrArg Except.ok ?_, ?_, rfl,
    fun hres => ?_⟩
  · decide +kernel
  · decide +kernel
  · exact absurd (hres.shown (by decide)).1 (by decide)

end Operation

end GitInvocation
