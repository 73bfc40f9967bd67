import GitInvocation.Command.Override
import GitInvocation.Snapshot.Basic
/-!
# Required settings

An operation may need certain settings to be in force. An override is passed for each of them
whose effective value differs, or that has no value; white space around a value does not count.
-/
namespace GitInvocation.Snapshot

def meets (s : Snapshot) (required : Override) : Bool :=
  (s.get? required.key).map Text.trim == some required.value

/-- The overrides that make the required settings effective, in the order of the requirements. -/
def missing (s : Snapshot) (required : List Override) : List Override :=
  required.filter fun o => !s.meets o

/-- Transfers fetch one repository at a time. -/
def sequentialFetching : List Override := [⟨"fetch.parallel", "0"⟩, ⟨"submodule.fetchJobs", "0"⟩]

end GitInvocation.Snapshot
