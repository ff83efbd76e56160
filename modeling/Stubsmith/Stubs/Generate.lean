import Stubsmith.Extract.Pass
import Stubsmith.Stubs.Result
import Stubsmith.Syntax.Fault

namespace Stubsmith

/-- A source with the path under which it is reported. What it holds is in any form that a parser
takes, or there is a reason why it could not be read. -/
structure Source (τ : Type) where
  path : String
  contents : Except String τ
deriving Repr

namespace Source

variable {τ : Type}

/-- The declarations of a source, or why there are none. -/
def declarations (parse : τ → Except ParseError (List Decl)) (s : Source τ) :
    Except String (List Decl) :=
  match s.contents with
  | .error reason => .error reason
  | .ok text =>
    match parse text with
    | .error e => .error e.reason
    | .ok ds => .ok ds

end Source

/-- How far a run over sources has come. -/
structure Progress where
  state : ExtractState := {}
  unparsed : List Unparsed := []
deriving Inhabited

namespace Request

variable {τ : Type} (r : Request) (parse : τ → Except ParseError (List Decl))

/-- Visits the declarations of the next source, or notes why there are none. -/
def takeSource (p : Progress) (s : Source τ) : Progress :=
  match s.declarations parse with
  | .ok ds => { p with state := r.visitFile p.state ds }
  | .error reason => { p with unparsed := p.unparsed ++ [⟨s.path, reason⟩] }

/-- Of several declarations of one name the first is kept, so the order of sources matters. -/
def generate (sources : List (Source τ)) : StubsResult :=
  let p := sources.foldl (r.takeSource parse) {}
  p.state.found.result p.unparsed

end Request

end Stubsmith
