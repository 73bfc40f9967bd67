import GitInvocation.Operation
import GitInvocation.Proofs.Command.Drafting
import GitInvocation.Proofs.Outcomes
import GitInvocation.Proofs.Text.Cutting

/-!
# Refspecs

A fetch or a pull of a branch names it in one refspec, and without a branch there is none. A refspec
starts with a single plus sign, however many the branch starts with, and goes on with the rest of
the branch as it is, which may be nothing at all. A colon and the full name of a ref follow when a
fetch has a local branch; a short name of that branch stands for the same ref as its long one.
-/
namespace GitInvocation

open Draft (given settings)
open Text (blank nonBlank?)

/-- A number of plus signs. -/
def pluses (n : Nat) : String := String.ofList (List.replicate n '+')

def Starts (start text : String) : Prop := start.toList <+: text.toList

/-- The ref that a local branch stands for: itself when it is a full name, and else one of the
heads. -/
inductive FullName (name : String) : String → Prop where
  | full (h : Starts "refs/" name) : FullName name name
  | short (h : ¬ Starts "refs/" name) : FullName name ("refs/heads/" ++ name)

/-- What stands behind the branch in a refspec. -/
inductive Destination (localBranch : Option String) : String → Prop where
  | nothing (h : nonBlank? localBranch = none) : Destination localBranch ""
  | ref {name ref : String} (h : nonBlank? localBranch = some name) (hname : FullName name ref)
      (hstart : Starts "refs/" ref) : Destination localBranch (":" ++ ref)

/-- A refspec of a branch of the remote. -/
structure IsRefspec (branch : String) (localBranch : Option String) (spec : String) : Prop where
  plus : spec.toList.head? = some '+'
  onlyOne : spec.toList.tail.head? ≠ some '+'
  written : ∃ n name destination, branch = pluses n ++ name ∧ ¬ Starts "+" name ∧
    Destination localBranch destination ∧ spec = "+" ++ name ++ destination

/-- There is a refspec when there is a branch of the remote, and it is one of this branch. -/
structure Normal (remoteBranch localBranch spec : Option String) : Prop where
  given_iff : spec.isSome ↔ (nonBlank? remoteBranch).isSome
  fits : ∀ t, spec = some t → ∃ branch, remoteBranch = some branch ∧ IsRefspec branch localBranch t

section Names

variable {start text name : String}

theorem startsWith_iff : startsWith start text ↔ Starts start text := by
  rw [startsWith, Option.isSome_iff_exists]
  simp only [Text.afterStart?_eq_some_iff, Starts, List.IsPrefix, eq_comm (a := text.toList)]

theorem fullName_localRef (name : String) : FullName name (localRef name) := by
  rw [localRef]
  by_cases h : startsWith "refs/" name
  · rw [if_pos h]
    exact .full (startsWith_iff.mp h)
  · rw [if_neg h]
    exact .short (mt startsWith_iff.mpr h)

theorem starts_append (start rest : String) : Starts start (start ++ rest) := by
  rw [Starts, String.toList_append]
  exact List.prefix_append _ _

theorem FullName.starts {ref : String} (h : FullName name ref) : Starts "refs/" ref := by
  cases h with
  | full h => exact h
  | short => exact starts_append "refs/" ("heads/" ++ name)

/-- A short name and the long one of the same head are written alike. -/
theorem localRef_heads (h : ¬ Starts "refs/" name) :
    localRef ("refs/heads/" ++ name) = localRef name := by
  have hlong : Starts "refs/" ("refs/heads/" ++ name) := starts_append "refs/" ("heads/" ++ name)
  rw [localRef, if_pos (startsWith_iff.mpr hlong), localRef, if_neg (mt startsWith_iff.mp h)]

theorem destination_localRef (localBranch : Option String) :
    Destination localBranch (match nonBlank? localBranch with
      | some name => ":" ++ localRef name
      | none => "") := by
  cases h : nonBlank? localBranch with
  | none => exact .nothing h
  | some name => exact .ref h (fullName_localRef name) (fullName_localRef name).starts

theorem Destination.head_ne {localBranch : Option String} {destination : String}
    (h : Destination localBranch destination) : destination.toList.head? ≠ some '+' := by
  cases h with
  | nothing => decide
  | ref => simp

end Names

section Pluses

/-- A branch is a number of plus signs and what stands behind them. -/
theorem exists_pluses (branch : String) : ∃ n,
    branch = pluses n ++ String.ofList (branch.toList.dropWhile (· = '+')) := by
  have hall : ∀ c ∈ branch.toList.takeWhile (· = '+'), c = '+' := fun c hc =>
    of_decide_eq_true (List.all_eq_true.mp List.all_takeWhile c hc)
  refine ⟨(branch.toList.takeWhile (· = '+')).length, String.toList_injective ?_⟩
  rw [String.toList_append, pluses, String.toList_ofList, String.toList_ofList,
    ← List.eq_replicate_of_mem hall, List.takeWhile_append_dropWhile]

theorem not_starts_plus (branch : String) :
    ¬ Starts "+" (String.ofList (branch.toList.dropWhile (· = '+'))) := by
  rintro ⟨rest, hrest⟩
  rw [String.toList_ofList, String.toList_ofList] at hrest
  have hhead : '+' ∈ (branch.toList.dropWhile (· = '+')).head? := by
    rw [← hrest]
    rfl
  exact absurd (Text.head_dropWhile hhead) (by decide)

theorem dropWhile_pluses (n : Nat) (branch : String) :
    (pluses n ++ branch).toList.dropWhile (· = '+') = branch.toList.dropWhile (· = '+') := by
  rw [String.toList_append, pluses, String.toList_ofList]
  exact List.dropWhile_append_of_pos fun c hc => by simp [List.eq_of_mem_replicate hc]

end Pluses

section Refspec

variable {branch name : String} {remoteBranch localBranch : Option String}

theorem nonBlank?_of_not_blank (h : ¬ blank name) : nonBlank? (some name) = some name := by
  rw [nonBlank?, Option.filter_some, if_pos (by simp [h])]

theorem not_blank_append (start : String) (h : ¬ blank name) : ¬ blank (start ++ name) := by
  rw [blank, String.toList_append, List.all_append, Bool.and_eq_true]
  exact fun hall => h hall.2

theorem refspec?_pluses (n : Nat) (h : ¬ blank branch) (localBranch : Option String) :
    refspec? (some (pluses n ++ branch)) localBranch = refspec? (some branch) localBranch := by
  rw [refspec?, refspec?, nonBlank?_of_not_blank (not_blank_append (pluses n) h),
    nonBlank?_of_not_blank h, Option.map_some, Option.map_some, dropWhile_pluses]

theorem refspec?_heads (h : ¬ blank name) (hname : ¬ Starts "refs/" name)
    (remoteBranch : Option String) :
    refspec? remoteBranch (some ("refs/heads/" ++ name)) = refspec? remoteBranch (some name) := by
  simp only [refspec?, nonBlank?_of_not_blank (not_blank_append "refs/heads/" h),
    nonBlank?_of_not_blank h, localRef_heads hname]

theorem isRefspec {destination : String} (h : Destination localBranch destination) :
    IsRefspec branch localBranch
      ("+" ++ String.ofList (branch.toList.dropWhile (· = '+')) ++ destination) := by
  obtain ⟨n, hn⟩ := exists_pluses branch
  have hname := not_starts_plus branch
  generalize String.ofList (branch.toList.dropWhile (· = '+')) = name at hn hname
  refine ⟨by simp, ?_, n, name, destination, hn, hname, h, rfl⟩
  have htail : ("+" ++ name ++ destination).toList.tail = name.toList ++ destination.toList := by
    simp
  rw [htail]
  cases hl : name.toList with
  | nil => exact h.head_ne
  | cons c rest =>
    intro hc
    refine hname ⟨rest, ?_⟩
    rw [hl, Option.some.inj hc]
    rfl

theorem normal_refspec? (remoteBranch localBranch : Option String) :
    Normal remoteBranch localBranch (refspec? remoteBranch localBranch) := by
  refine ⟨by rw [refspec?, Option.isSome_map], fun t ht => ?_⟩
  obtain ⟨branch, hbranch, rfl⟩ := Option.map_eq_some_iff.mp ht
  have hremote := (Option.filter_eq_some_iff.mp hbranch).1
  exact ⟨branch, hremote, isRefspec (destination_localRef localBranch)⟩

theorem refspec?_ne_empty {t : String} (h : t ∈ refspec? remoteBranch localBranch) : t ≠ "" := by
  obtain ⟨branch, -, hspec⟩ := (normal_refspec? remoteBranch localBranch).fits t h
  rintro rfl
  exact absurd hspec.plus (by decide)

end Refspec

/-- What stands behind the refspec of a fetch or a pull. -/
def following (tags : TagFollowing) (unshallow : Bool) (prune : Pruning) : List String :=
  tags.flag?.toList ++ given unshallow "--unshallow" ++ prune.flag?.toList

/-- The overrides without which several repositories may be fetched from at a time. -/
def sequential (s : Snapshot) : List String := settings (s.missing Snapshot.sequentialFetching)

theorem parts_following (d : Draft) (tags : TagFollowing) (unshallow : Bool) (prune : Pruning) :
    (((d.raw? tags.flag?).rawIf unshallow "--unshallow").raw? prune.flag?).parts =
      d.parts ++ following tags unshallow prune := by
  have htags : ∀ flag ∈ tags.flag?, flag ≠ "" := by cases tags <;> decide
  have hprune : ∀ flag ∈ prune.flag?, flag ≠ "" := by cases prune <;> decide
  rw [Draft.parts_raw? _ hprune, Draft.parts_rawIf _ _ (by decide), Draft.parts_raw? _ htags,
    following, List.append_assoc, List.append_assoc, List.append_assoc]

namespace Fetch

/-- What stands in front of the refspec. -/
def leading (r : Fetch) (s : Snapshot) : List String :=
  sequential s ++ ["fetch", "--progress"] ++ (quoted? (remoteText r.remote)).toList

/-- The text of a fetch has this refspec, or none. -/
def Emits (r : Fetch) (s : Snapshot) (spec : Option String) : Prop :=
  (Operation.fetch r).arguments s = .ok (" ".intercalate
    (r.leading s ++ spec.toList ++ following r.tags r.unshallow r.prune))

theorem parts_draft (r : Fetch) (s : Snapshot) : (r.draft s).parts = r.leading s ++
    (refspec? r.remoteBranch r.localBranch).toList ++ following r.tags r.unshallow r.prune := by
  rw [Fetch.draft, parts_following, Draft.parts_raw? _ fun _ h => refspec?_ne_empty h,
    Draft.parts_quoted, Draft.parts_raw _ (by decide), Draft.parts_start_configure, leading,
    sequential, List.append_assoc (settings _)]
  rfl

theorem emits (r : Fetch) (s : Snapshot) : r.Emits s (refspec? r.remoteBranch r.localBranch) := by
  rw [Emits, ← r.parts_draft s]
  rfl

end Fetch

namespace Pull

/-- What stands in front of the refspec. -/
def leading (p : Pull) (s : Snapshot) : List String :=
  sequential s ++ ["pull"] ++ given p.rebase "--rebase" ++ ["--progress"] ++
    (quoted? (remoteText p.remote)).toList

/-- The text of a pull has this refspec, or none. -/
def Emits (p : Pull) (s : Snapshot) (spec : Option String) : Prop :=
  (Operation.pull p).arguments s = .ok (" ".intercalate
    (p.leading s ++ spec.toList ++ following p.tags p.unshallow p.prune))

theorem parts_draft (p : Pull) (s : Snapshot) : (p.draft s).parts = p.leading s ++
    (refspec? p.remoteBranch none).toList ++ following p.tags p.unshallow p.prune := by
  rw [Pull.draft, parts_following, Draft.parts_raw? _ fun _ h => refspec?_ne_empty h,
    Draft.parts_quoted, Draft.parts_raw _ (by decide), Draft.parts_rawIf _ _ (by decide),
    Draft.parts_start_configure, leading, sequential]

theorem emits (p : Pull) (s : Snapshot) : p.Emits s (refspec? p.remoteBranch none) := by
  rw [Emits, ← p.parts_draft s]
  rfl

end Pull

namespace Operation

/-- The law of refspecs. The text of a fetch or of a pull has a refspec in one place, exactly when
the branch of the remote is not blank, and all else in the text does not depend on the branches.
Plus signs in front of that branch and the long name of a head in the place of its short one change
nothing. A pull has the refspec of any fetch of the same branch without a local one. -/
theorem refspecs_normalised (s : Snapshot) :
    (∀ r : Fetch, ∃ spec, r.Emits s spec ∧ Normal r.remoteBranch r.localBranch spec) ∧
    (∀ (r : Fetch) (n : Nat) (branch : String), ¬ blank branch → r.remoteBranch = some branch →
      (fetch { r with remoteBranch := some (pluses n ++ branch) }).arguments s =
        (fetch r).arguments s) ∧
    (∀ (r : Fetch) (name : String), ¬ blank name → ¬ Starts "refs/" name →
      r.localBranch = some name →
      (fetch { r with localBranch := some ("refs/heads/" ++ name) }).arguments s =
        (fetch r).arguments s) ∧
    (∀ p : Pull, ∃ spec, p.Emits s spec ∧ Normal p.remoteBranch none spec ∧
      ∀ r : Fetch, r.remoteBranch = p.remoteBranch → r.localBranch = none → r.Emits s spec) ∧
    ∀ (p : Pull) (n : Nat) (branch : String), ¬ blank branch → p.remoteBranch = some branch →
      (pull { p with remoteBranch := some (pluses n ++ branch) }).arguments s =
        (pull p).arguments s := by
  refine ⟨fun r => ⟨_, r.emits s, normal_refspec? _ _⟩, ?_, ?_, fun p => ?_, ?_⟩
  · intro r n branch hbranch hr
    simp only [arguments, draft, Fetch.draft, hr, refspec?_pluses n hbranch]
  · intro r name hname hshort hr
    simp only [arguments, draft, Fetch.draft, hr, refspec?_heads hname hshort]
  · refine ⟨_, p.emits s, normal_refspec? _ _, fun r hremote hlocal => ?_⟩
    rw [← hremote, ← hlocal]
    exact r.emits s
  · intro p n branch hbranch hp
    simp only [arguments, draft, Pull.draft, hp, refspec?_pluses n hbranch]

/-- A blank behind the plus signs, and a local branch whose name starts almost like a full one. -/
theorem refspecs_normalised_plusesAlone :
    let r : Fetch := ⟨"origin", some "+ ", some "refsx", .fromConfig, false, .off⟩
    ¬ blank "+ " ∧ ¬ blank "refsx" ∧ ¬ Starts "refs/" "refsx" ∧
      (fetch { r with remoteBranch := some "++++ " }).arguments .empty =
        (fetch r).arguments .empty ∧
      (fetch { r with localBranch := some "refs/heads/refsx" }).arguments .empty =
        (fetch r).arguments .empty ∧
      (fetch r).arguments .empty = .ok ("-c fetch.parallel=0 -c submodule.fetchJobs=0 " ++
        "fetch --progress \"origin\" + :refs/heads/refsx") := by
  intro r
  have hremote : ¬ blank "+ " := by decide +kernel
  have hlocal : ¬ blank "refsx" := by decide +kernel
  have hshort : ¬ Starts "refs/" "refsx" := mt startsWith_iff.mpr (by decide)
  obtain ⟨-, hpluses, hheads, -⟩ := refspecs_normalised .empty
  exact ⟨hremote, hlocal, hshort, hpluses r 3 "+ " hremote rfl, hheads r "refsx" hlocal hshort rfl,
    ok_of_toOption (by decide +kernel)⟩

end Operation

end GitInvocation
