/-!
The languages whose symbols can be read.
-/

set_option autoImplicit false

namespace SymbolAtlas

inductive Language
  | typescript
  | tsx
  | javascript
  | python
  | java
  | csharp
  | cpp
  | rust
  | ruby
  | go
  deriving DecidableEq, Repr

namespace Language

def all : List Language :=
  [.typescript, .tsx, .javascript, .python, .java, .csharp, .cpp, .rust, .ruby, .go]

def name : Language → String
  | .typescript => "typescript"
  | .tsx => "tsx"
  | .javascript => "javascript"
  | .python => "python"
  | .java => "java"
  | .csharp => "csharp"
  | .cpp => "cpp"
  | .rust => "rust"
  | .ruby => "ruby"
  | .go => "go"

def ofName? (s : String) : Option Language := all.find? fun l => l.name == s

end Language

end SymbolAtlas
