import CodeAtlas.Source.Range
import CodeAtlas.Symbol.Basic

/-! Recorded appearances of symbols. -/

namespace CodeAtlas

structure Site where
  line : Nat
  column : Nat
  roles : Roles
  deriving Repr, DecidableEq

/-- A symbol at a site. Two references are the same when symbol and position agree; the roles do not
count. -/
structure Reference where
  symbol : Symbol
  site : Site
  deriving Repr

namespace Reference

instance : BEq Reference :=
  ⟨fun a b => a.symbol == b.symbol && a.site.line == b.site.line && a.site.column == b.site.column⟩

def positionLe (a b : Reference) : Bool :=
  a.site.line < b.site.line || (a.site.line = b.site.line && a.site.column ≤ b.site.column)

def le (a b : Reference) : Bool :=
  a.site.line < b.site.line || (a.site.line = b.site.line
    && (a.site.column < b.site.column
      || (a.site.column = b.site.column && a.symbol.before b.symbol)))

end Reference

end CodeAtlas
