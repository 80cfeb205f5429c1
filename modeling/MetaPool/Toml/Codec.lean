import MetaPool.Toml.Document
import MetaPool.Toml.Printer

/-!
# Codecs

What writes and reads documents takes a codec: a printer of tables and a reader of texts, each of
which may refuse. `Codec.pretty` prints and reads as this library does.
-/

namespace MetaPool.Toml

/-- A printer and a reader of documents. -/
structure Codec where
  print? : Value → Option String
  read? : String → Option Value

/-- The codec that prints tables with the assignments first. -/
def Codec.pretty : Codec := ⟨Value.print?, Value.read?⟩

end MetaPool.Toml
