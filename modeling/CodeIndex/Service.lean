import CodeIndex.Config.Settings
import CodeIndex.Indexing.Indexer

/-!
An indexer put together as settings say.
-/

namespace CodeIndex

structure Service where
  settings : Config.Settings
  config : IndexerConfig
  indexer : Indexer

namespace Service

/-- An indexer over a store, with a chain of providers. -/
def build (s : Config.Settings) (providers : List Embedding.Provider)
    (parser : Language → String → Option Syntax.Node) (store : Store) : Service :=
  { settings := s
    config := { pipeline := s.embedding, ignorePatterns := s.index.ignorePatterns, maxFileBytes := s.index.maxFileBytes,
                parser }
    indexer := { world := { providers, health := { config := s.healthConfig }, store } } }

/-- The project that a path belongs to. If no words of it are known, they are taken from its records. -/
def openProject (v : Service) (root : FileTree) (path : String) : Except IndexError (Service × Project) := do
  let project ← v.config.identifyProject root path
  if (v.indexer.lexical.files project.id).isEmpty then
    let (indexer, _) ← v.indexer.warm project.id
    return ({ v with indexer }, project)
  else return (v, project)

end Service

end CodeIndex
