/-!
# The network

What is served under each address.
-/

namespace LineBasic

/-- The answer to a request. -/
inductive Response where
  | page (bytes : ByteArray)
  /-- a status other than success, and its reason -/
  | status (code : Int) (reason : String)
  /-- no server answers -/
  | unreachable (reason : String)
  /-- the request fails in another way -/
  | broken (reason : String)
  deriving Inhabited

/-- Answers by address. -/
structure Network where
  pages : List (String × Response) := []
  deriving Inhabited

/-- The answer to a request for an address. -/
def Network.get (n : Network) (url : String) : Response :=
  ((n.pages.find? fun p => p.1 = url).map Prod.snd).getD (.unreachable "no route")

end LineBasic
