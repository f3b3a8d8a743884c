/-!
# HTTP rules

A rule binds a method to an HTTP request: a pattern of verb and path, the part of the request that
is its body, and further bindings of the same method.
-/

namespace ProtoSource.Http

/-- The verb and path of a rule. -/
inductive Pattern where
  | get (path : String)
  | put (path : String)
  | post (path : String)
  | delete (path : String)
  | patch (path : String)
  | custom (kind path : String)
  deriving DecidableEq, Repr

namespace Pattern

/-- The word that introduces the pattern in a rule. -/
def keyword : Pattern → String
  | .get _ => "get"
  | .put _ => "put"
  | .post _ => "post"
  | .delete _ => "delete"
  | .patch _ => "patch"
  | .custom _ _ => "custom"

/-- The verb; a custom pattern names its own. -/
def verb : Pattern → String
  | .custom kind _ => kind
  | pattern => pattern.keyword

def path : Pattern → String
  | .get path => path
  | .put path => path
  | .post path => path
  | .delete path => path
  | .patch path => path
  | .custom _ path => path

end Pattern

/-- A rule without its additional bindings. The pattern may be missing. -/
structure Binding where
  selector : String := ""
  pattern? : Option Pattern := none
  body : String := ""
  responseBody : String := ""
  deriving DecidableEq, Repr

inductive Rule where
  | mk (binding : Binding) (additional : List Rule)

namespace Rule

def binding : Rule → Binding
  | mk binding _ => binding

/-- The additional bindings. -/
def additional : Rule → List Rule
  | mk _ additional => additional

end Rule

end ProtoSource.Http
