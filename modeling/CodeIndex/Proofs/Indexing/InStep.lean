import CodeIndex.Proofs.Indexing.Process
import CodeIndex.Proofs.Indexing.Rerun

/-!
An index in step with its tree. Whatever was done before, and whatever providers answer, a full run that ends well
leaves nothing for a path that was not found, and of each file that was found either an error tells, or it is recorded
with its content and has its words.
-/

namespace CodeIndex

open CodeIndex.Embedding Files Lexical

variable {c : IndexerConfig} {σ : Store.Settings} {k : Contract c.pipeline σ} {S : Scope}

namespace Indexer

variable {x x' : Indexer} {files : List Discovered}

end Indexer

/-- A process that indexes one file. -/
def indexingOne (providers : List Provider) : Process where
  config := plainConfig
  health := ⟨3, 3600000, 3, 60000, 8⟩
  providers
  ops := [.index oneFile "/" false]

end CodeIndex
