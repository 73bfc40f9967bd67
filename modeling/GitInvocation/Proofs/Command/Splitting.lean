import GitInvocation.Proofs.Command.Drafting
import GitInvocation.Proofs.Words.Comment

/-!
# Splitting the text of a draft part by part

The overrides and the tokens of a draft may hold quotes, escapes and blanks of their own. As long
as each of them splits on its own and none has a comment, the text of the draft splits into the
words of its parts, one part after the other. That a part splits is not enough: a part with a
comment would take the parts behind it along.
-/
namespace GitInvocation.Draft

open Words

theorem allSettled_wordsOf {parts : List String} (h : ∀ part ∈ parts, Apart part) :
    AllSettled parts (parts.flatMap wordsOf) := by
  induction parts with
  | nil => exact .nil
  | cons part parts ih =>
    have hpart := (h part List.mem_cons_self).settled
    exact .cons hpart (ih fun p hp => h p (List.mem_cons_of_mem part hp))

/-- Joining keeps the words of the parts: none of them merges with its neighbours, splits them or
swallows them. -/
theorem words?_text_eq (d : Draft) (hcommand : Plain d.command ∧ d.command ≠ "")
    (hoverrides : ∀ o ∈ d.overrides, Apart o.text)
    (htokens : ∀ t ∈ d.tokens, ∀ part ∈ t.text?, Apart part) :
    words? d.text = some (given d.lockFree noLocksSwitch ++
      d.overrides.flatMap (fun o => "-c" :: wordsOf o.text) ++
      d.command :: (d.tokens.filterMap Token.text?).flatMap wordsOf) := by
  have hword : Word d.command := settled_word hcommand.1 hcommand.2
  have hparts : AllSettled (d.tokens.filterMap Token.text?)
      ((d.tokens.filterMap Token.text?).flatMap wordsOf) := by
    refine allSettled_wordsOf fun part hpart => ?_
    obtain ⟨t, ht, he⟩ := List.mem_filterMap.mp hpart
    exact htokens t ht part he
  have hreads := reads_of_parts hword (fun o ho => (hoverrides o ho).settled) hparts
  exact hreads.text.words?

/-- Hashes within words and within quotes, quotes of both kinds, an escaped blank, a token that is
left out and a value with a blank in quotes of its own. -/
theorem words?_text_eq_allQuotings :
    words? ("--no-optional-locks -c user.name='Jane #2' log " ++
      "--format=\"%h #%d\" a#b\\ c \"# none\" \"dir/x y\"") =
    some ["--no-optional-locks", "-c", "user.name=Jane #2", "log",
      "--format=%h #%d", "a#b c", "# none", "dir/x y"] := by
  let d : Draft := ⟨"log", true, [⟨"user.name", "'Jane #2'"⟩],
    [.raw "--format=\"%h #%d\" a#b\\ c", .raw "", .quoted "# none", .path "dir\\x y"]⟩
  have hoverrides : ∀ o ∈ d.overrides, Apart o.text := by decide +kernel
  have htokens : ∀ t ∈ d.tokens, ∀ part ∈ t.text?, Apart part := by decide +kernel
  have h := d.words?_text_eq (by decide +kernel) hoverrides htokens
  have htext : d.text = "--no-optional-locks -c user.name='Jane #2' log " ++
      "--format=\"%h #%d\" a#b\\ c \"# none\" \"dir/x y\"" := by decide +kernel
  rw [← htext, h]
  decide +kernel

end GitInvocation.Draft
