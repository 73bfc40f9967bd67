import GitInvocation.Proofs.Operation.FreeText

/-!
# Slashes and backslashes in paths

In the fields that are taken for paths it does not matter which of the two separators a caller
writes. A request with slashes has the draft of the original with slashes in its tokens, and a
path token is written with slashes in any case. Backslashes in an argument text therefore come
from the other fields alone.
-/
namespace GitInvocation

open Text (isBlank nonBlank?)

section Paths

theorem posixPath_posixPath (s : String) : posixPath (posixPath s) = posixPath s := by
  simp only [posixPath, String.map_map]
  congr 1
  funext c
  by_cases h : c = '\\' <;> simp [h]

/-- A separator of either kind is no white space. -/
theorem blank_posixPath (s : String) : Text.blank (posixPath s) = Text.blank s := by
  rw [Text.blank, Text.blank, posixPath, String.toList_map, List.all_map]
  congr 1
  funext c
  by_cases h : c = '\\'
  · subst h
    decide
  · simp [h]

theorem nonBlank?_map_posixPath (o : Option String) :
    nonBlank? (o.map posixPath) = (nonBlank? o).map posixPath := by
  simp only [nonBlank?, Option.filter_map, Function.comp_def, blank_posixPath]

theorem filledIn_map_posixPath (files : List String) :
    filledIn (files.map posixPath) = (filledIn files).map posixPath := by
  simp only [filledIn, List.filter_map, Function.comp_def, blank_posixPath]

theorem remoteText_posixPath (s : String) : remoteText (posixPath s) = remoteText s := by
  rw [remoteText, remoteText, posixPath_posixPath]

end Paths

/-- The token with slashes in a path. -/
def Token.withSlashes : Token → Token
  | .raw value => .raw value
  | .quoted value => .quoted value
  | .path value => .path (posixPath value)

theorem Token.text?_withSlashes (t : Token) : t.withSlashes.text? = t.text? := by
  cases t with
  | raw value => rfl
  | quoted value => rfl
  | path value => rw [withSlashes, text?, text?, posixPath_posixPath]

namespace Draft

def withSlashes (d : Draft) : Draft := { d with tokens := d.tokens.map Token.withSlashes }

theorem text_withSlashes (d : Draft) : d.withSlashes.text = d.text := by
  have htokens : d.withSlashes.tokens.filterMap Token.text? = d.tokens.filterMap Token.text? := by
    rw [withSlashes, List.filterMap_map]
    congr 1
    funext t
    exact t.text?_withSlashes
  rw [text, text, parts, parts, htokens]
  rfl

section Steps

variable (d : Draft)

@[simp] theorem withSlashes_start (command : String) :
    (start command).withSlashes = start command := rfl

@[simp] theorem withSlashes_noOptionalLocks (on : Bool) :
    (d.noOptionalLocks on).withSlashes = d.withSlashes.noOptionalLocks on := rfl

@[simp] theorem withSlashes_configure (items : List Override) :
    (d.configure items).withSlashes = d.withSlashes.configure items := rfl

theorem withSlashes_add (items : List Token) :
    (d.add items).withSlashes = d.withSlashes.add (items.map Token.withSlashes) := by
  simp only [withSlashes, Draft.add, List.map_append]

@[simp] theorem withSlashes_raw (value : String) :
    (d.raw value).withSlashes = d.withSlashes.raw value := d.withSlashes_add _

@[simp] theorem withSlashes_rawIf (on : Bool) (value : String) :
    (d.rawIf on value).withSlashes = d.withSlashes.rawIf on value := by
  cases on
  · rfl
  · exact d.withSlashes_raw value

@[simp] theorem withSlashes_rawEither (on : Bool) (yes no : String) :
    (d.rawEither on yes no).withSlashes = d.withSlashes.rawEither on yes no := by
  cases on
  · exact d.withSlashes_raw no
  · exact d.withSlashes_raw yes

@[simp] theorem withSlashes_raw? (value : Option String) :
    (d.raw? value).withSlashes = d.withSlashes.raw? value := by
  cases value <;> exact d.withSlashes_add _

@[simp] theorem withSlashes_quoted? (value : Option String) :
    (d.quoted? value).withSlashes = d.withSlashes.quoted? value := by
  cases value <;> exact d.withSlashes_add _

@[simp] theorem withSlashes_path (value : String) :
    (d.path value).withSlashes = d.withSlashes.path (posixPath value) := d.withSlashes_add _

@[simp] theorem withSlashes_paths (values : List String) :
    (d.paths values).withSlashes = d.withSlashes.paths (values.map posixPath) := by
  rw [paths, withSlashes_add, paths, List.map_map, List.map_map]
  rfl

@[simp] theorem withSlashes_path? (value : Option String) :
    (d.path? value).withSlashes = d.withSlashes.path? (value.map posixPath) := by
  cases value <;> exact d.withSlashes_add _

end Steps

end Draft

def Fetch.withSlashes (r : Fetch) : Fetch := { r with remote := posixPath r.remote }

def Pull.withSlashes (r : Pull) : Pull := { r with remote := posixPath r.remote }

def Clone.withSlashes (r : Clone) : Clone :=
  { r with source := posixPath r.source, target := posixPath r.target }

def PushLocal.withSlashes (r : PushLocal) : PushLocal :=
  { r with repository := posixPath r.repository }

def PushTag.withSlashes (r : PushTag) : PushTag := { r with remote := posixPath r.remote }

def Reset.withSlashes (r : Reset) : Reset := { r with file := r.file.map posixPath }

def Stash.withSlashes (r : Stash) : Stash := { r with files := r.files.map posixPath }

def ApplyDiff.withSlashes (r : ApplyDiff) : ApplyDiff :=
  { r with patchFile := posixPath r.patchFile }

def ApplyMailbox.withSlashes (r : ApplyMailbox) : ApplyMailbox :=
  { r with patchFile := r.patchFile.map posixPath }

def Changes.withSlashes (r : Changes) : Changes :=
  { r with fileName := posixPath r.fileName, oldFileName := r.oldFileName.map posixPath }

def SyncSubmodule.withSlashes (r : SyncSubmodule) : SyncSubmodule :=
  { r with name := r.name.map posixPath }

def AddSubmodule.withSlashes (r : AddSubmodule) : AddSubmodule :=
  { r with remotePath := posixPath r.remotePath, localPath := posixPath r.localPath }

/-- The request with slashes for the backslashes in its paths. -/
def Operation.withSlashes : Operation → Operation
  | .fetch r => .fetch r.withSlashes
  | .pull r => .pull r.withSlashes
  | .clone r => .clone r.withSlashes
  | .pushLocal r => .pushLocal r.withSlashes
  | .pushTag r => .pushTag r.withSlashes
  | .reset r => .reset r.withSlashes
  | .stash r => .stash r.withSlashes
  | .applyDiff r => .applyDiff r.withSlashes
  | .applyMailbox r => .applyMailbox r.withSlashes
  | .changes r => .changes r.withSlashes
  | .syncSubmodule r => .syncSubmodule r.withSlashes
  | .addSubmodule r => .addSubmodule r.withSlashes
  | o => o

section Drafts

theorem Fetch.draft_withSlashes (r : Fetch) (s : Snapshot) :
    r.withSlashes.draft s = r.draft s := by
  simp only [Fetch.draft, Fetch.withSlashes, remoteText_posixPath]

theorem Pull.draft_withSlashes (r : Pull) (s : Snapshot) :
    r.withSlashes.draft s = r.draft s := by
  simp only [Pull.draft, Pull.withSlashes, remoteText_posixPath]

theorem Clone.draft_withSlashes (r : Clone) : r.withSlashes.draft = r.draft.withSlashes := by
  simp [Clone.draft, Clone.withSlashes]

theorem PushLocal.draft_withSlashes (r : PushLocal) : r.withSlashes.draft = r.draft := by
  simp only [PushLocal.draft, PushLocal.withSlashes, posixPath_posixPath]

theorem PushTag.draft?_withSlashes (r : PushTag) : r.withSlashes.draft? = r.draft? := by
  simp only [PushTag.draft?, PushTag.withSlashes, remoteText_posixPath]

theorem Reset.draft_withSlashes (r : Reset) :
    r.withSlashes.draft = r.draft.map Draft.withSlashes := by
  by_cases h : r.mode = .index ∧ nonBlank? r.commit = none
  · have hleft : r.withSlashes.draft = .error (.missingTreeish "reset") := if_pos h
    have hright : r.draft = .error (.missingTreeish "reset") := if_pos h
    rw [hleft, hright]
    rfl
  · have hleft : r.withSlashes.draft = .ok _ := if_neg h
    have hright : r.draft = .ok _ := if_neg h
    rw [hleft, hright]
    simp [Except.map, Reset.withSlashes, nonBlank?_map_posixPath]

theorem Stash.draft_withSlashes (r : Stash) : r.withSlashes.draft = r.draft.withSlashes := by
  simp [Stash.draft, Stash.withSlashes, filledIn_map_posixPath]

theorem ApplyDiff.draft_withSlashes (r : ApplyDiff) :
    r.withSlashes.draft = r.draft.withSlashes := by
  simp [ApplyDiff.draft, ApplyDiff.withSlashes]

theorem ApplyMailbox.draft_withSlashes (r : ApplyMailbox) :
    r.withSlashes.draft = r.draft.withSlashes := by
  simp [ApplyMailbox.draft, ApplyMailbox.withSlashes, nonBlank?_map_posixPath]

theorem Changes.oldFile?_withSlashes (r : Changes) :
    r.withSlashes.oldFile? = r.oldFile?.map posixPath := by
  unfold Changes.oldFile? Changes.withSlashes
  cases r.staged
  · rfl
  · exact nonBlank?_map_posixPath r.oldFileName

theorem Changes.draft_withSlashes (r : Changes) : r.withSlashes.draft = r.draft.withSlashes := by
  simp only [Changes.draft, Changes.oldFile?_withSlashes]
  simp [Changes.withSlashes]

theorem SyncSubmodule.draft_withSlashes (r : SyncSubmodule) :
    r.withSlashes.draft = r.draft.withSlashes := by
  simp [SyncSubmodule.draft, SyncSubmodule.withSlashes, nonBlank?_map_posixPath]

theorem AddSubmodule.draft_withSlashes (r : AddSubmodule) :
    r.withSlashes.draft = r.draft.withSlashes := by
  simp [AddSubmodule.draft, AddSubmodule.withSlashes]

end Drafts

namespace Operation

/-- The text of a draft as the text of an operation that always has one. -/
theorem ok_text_congr {d d' : Draft} (h : d' = d.withSlashes) :
    (.ok d'.text : Except Rejection String) = .ok d.text := by
  rw [h, d.text_withSlashes]

theorem arguments_withSlashes (o : Operation) (s : Snapshot) :
    o.withSlashes.arguments s = o.arguments s := by
  cases o with
  | fetch r => exact congrArg (fun d : Draft => Except.ok d.text) (r.draft_withSlashes s)
  | pull r => exact congrArg (fun d : Draft => Except.ok d.text) (r.draft_withSlashes s)
  | clone r => exact ok_text_congr r.draft_withSlashes
  | pushLocal r => exact congrArg (fun d : Draft => Except.ok d.text) r.draft_withSlashes
  | pushTag r =>
    exact congrArg (fun d : Option Draft => Except.ok ((d.map Draft.text).getD ""))
      r.draft?_withSlashes
  | reset r =>
    have h := r.draft_withSlashes
    show ((r.withSlashes.draft.map some).map _) = ((r.draft.map some).map _)
    rw [h]
    cases r.draft with
    | error e => rfl
    | ok d => exact ok_text_congr rfl
  | stash r => exact ok_text_congr r.draft_withSlashes
  | applyDiff r => exact ok_text_congr r.draft_withSlashes
  | applyMailbox r => exact ok_text_congr r.draft_withSlashes
  | changes r => exact ok_text_congr r.draft_withSlashes
  | syncSubmodule r => exact ok_text_congr r.draft_withSlashes
  | addSubmodule r => exact ok_text_congr r.draft_withSlashes
  | _ => rfl

/-- A path never brings a backslash into the text. -/
theorem backslash_notMem_arguments {o : Operation} {s : Snapshot} {text : String}
    (h : ∀ v ∈ o.freeText.others, '\\' ∉ v.toList) (ht : o.arguments s = .ok text) :
    '\\' ∉ text.toList := by
  let a := Alphabet.without '\\' rfl
  have hfree : o.freeText.SpelledIn a :=
    ⟨fun v _ => Alphabet.spells_posixPath fun c _ hc => hc,
      fun v hv => Alphabet.spells_without.mpr (h v hv)⟩
  exact Alphabet.spells_without.mp (spells_arguments hfree ht)

/-- A path may be written with either separator: the operation has the same text, or the same
reason for having none. The text has slashes only, unless a field that is no path has a
backslash. -/
theorem separators_interchangeable (o : Operation) (s : Snapshot) :
    o.withSlashes.arguments s = o.arguments s ∧
      ∀ text, o.arguments s = .ok text → (∀ v ∈ o.freeText.others, '\\' ∉ v.toList) →
        '\\' ∉ text.toList :=
  ⟨o.arguments_withSlashes s, fun _ ht h => backslash_notMem_arguments h ht⟩

/-- Both separators in one path, a path that is only a backslash, and one of white space. -/
theorem separators_interchangeable_mixedStash :
    let o := Operation.stash ⟨false, false, some "a note", ["dir\\a/b", "\\", " "]⟩
    o.withSlashes = .stash ⟨false, false, some "a note", ["dir/a/b", "/", " "]⟩ ∧
      o.withSlashes.arguments .empty = o.arguments .empty ∧
      o.arguments .empty = .ok "stash push -m \"a note\" -- \"dir/a/b\" \"/\"" ∧
      '\\' ∉ "stash push -m \"a note\" -- \"dir/a/b\" \"/\"".toList := by
  intro o
  have hslashes : o.withSlashes = .stash ⟨false, false, some "a note", ["dir/a/b", "/", " "]⟩ := by
    refine congrArg stash ?_
    decide +kernel
  have htext : o.arguments .empty = .ok "stash push -m \"a note\" -- \"dir/a/b\" \"/\"" := by
    refine congrArg Except.ok ?_
    decide +kernel
  have hothers : ∀ v ∈ o.freeText.others, '\\' ∉ v.toList := by decide +kernel
  obtain ⟨hsame, hnone⟩ := separators_interchangeable o .empty
  exact ⟨hslashes, hsame, htext, hnone _ htext hothers⟩

end Operation

end GitInvocation
