import CodeIndex.Embedding.Run
import CodeIndex.Retrieval

/-!
Answering a query from a project's index. The words of the query are looked up always; its meaning only if it can
be embedded, and without that the answer is the ranking by words alone.
-/

namespace CodeIndex

open CodeIndex.Embedding

/-- The best `k` chunks of a project for a query. -/
def retrieve (c : PipelineConfig) (config : RetrievalConfig) (lexical : Lexical.Index) (w : World)
    (project query : String) (k : Nat) : World × Except IndexError Retrieved :=
  let candidates := max config.candidates k
  let byWords := (Lexical.search lexical project query candidates).map RetrievedChunk.ofHit
  match w.embedQuery c query (some project) with
  | (w, .error (.embed _)) => (w, .ok ⟨byWords.take k, .lexicalOnly⟩)
  | (w, .error e) => (w, .error e)
  | (w, .ok vector) =>
    match w.store.search project vector candidates config.scoreThreshold with
    | .error e => (w, .error (.store e))
    | .ok hits => (w, .ok ⟨(fuse config (hits.map RetrievedChunk.ofScored) byWords).take k, .hybrid⟩)

end CodeIndex
