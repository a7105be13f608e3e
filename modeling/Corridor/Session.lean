import Corridor.Ranking

/-!
# Sessions

A session carries settings, named parts of the observations and named rankings from one step to
the next. Parts are ranked on their own and their rankings merged. A step that fails leaves the
session as it was.
-/

namespace Corridor

/-- What a session remembers. -/
structure Session where
  settings : Settings
  parts : Catalog String (List Ping)
  maps : Catalog String (Rankings Float)
deriving Inhabited

/-- What is asked of a ranking: the shapes of the route, the envelope of the grid, its divisions
(or null), the pings of the tube (or those of the box in the shapes), and the scorer. -/
structure Request where
  shapes : List (Option Shape)
  extent : Extent
  divisions : Datum
  tube? : Option (List Ping)
  scorer : Scorer

namespace Request

/-- Ranks the pings of a box. -/
def rank [Geodesy] (q : Request) (settings : Settings) (box : List Ping) :
    Run (Rankings Float) := do
  let box ← PingCollection.gather box
  let tube ← match q.tube? with
    | some ps => PingCollection.gather ps
    | none => pure (box.within q.shapes)
  Route.rank ⟨q.scorer, box, tube, settings⟩ q.extent q.shapes q.divisions

end Request

namespace Session

/-- One step of a session. -/
inductive Step where
  /-- Changes settings. -/
  | configure (changes : List (String × Datum))
  /-- Adds pings to a part. -/
  | add (part : String) (pings : List Ping)
  /-- Ranks a part, and keeps the ranking under a name. -/
  | rank (part name : String) (request : Request)
  /-- Keeps a given ranking under a name. -/
  | put (name : String) (rankings : Rankings Float)
  /-- Merges rankings, and keeps the result under a name. -/
  | merge (names : List String) (name : String)
  /-- Asks for a page of a ranking. -/
  | page (name : String)

/-- What a step answers. -/
inductive Reply where
  | settings (settings : Settings)
  | count (pings : Nat)
  | rankings (rankings : Rankings Float)
  | keys (keys : List String)
deriving Inhabited

/-- A session in which nothing has happened. -/
def start (settings : Settings) : Session := ⟨settings, Catalog.empty, Catalog.empty⟩

/-- The pings of a part, which has none until some are added. -/
def part (s : Session) (name : String) : List Ping := s.parts.getD name []

/-- A ranking by name, which is empty until one is kept. -/
def ranking (s : Session) (name : String) : Rankings Float := s.maps.getD name Catalog.empty

/-- Keeps a ranking under a name. -/
def keep (s : Session) (name : String) (m : Rankings Float) : Session × Reply :=
  ({ s with maps := s.maps.insert name m }, .rankings m)

/-- The session after a step, and its answer. -/
def step [Geodesy] (s : Session) : Step → Except Fault (Session × Reply)
  | .configure changes => do
      let settings ← s.settings.override changes
      return ({ s with settings }, .settings settings)
  | .add name pings =>
      let all := s.part name ++ pings
      .ok ({ s with parts := s.parts.insert name all }, .count all.length)
  | .rank part name request => do
      return s.keep name (← (Run.start (request.rank s.settings (s.part part))).1)
  | .put name rankings => .ok (s.keep name rankings)
  | .merge names name => do return s.keep name (← Rankings.mergeAll (names.map s.ranking))
  | .page name => do return (s, .keys (← Listing.pageBySettings (s.ranking name) s.settings))

/-- The answers to a list of steps. -/
def answers [Geodesy] (s : Session) : List Step → List (Except Fault Reply)
  | [] => []
  | step :: steps => match s.step step with
    | .ok (s, reply) => .ok reply :: answers s steps
    | .error fault => .error fault :: answers s steps

end Session

end Corridor
