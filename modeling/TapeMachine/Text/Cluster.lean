import TapeMachine.Text.ClusterClass

/-!
# Clusters

Text is cut into clusters by what the characters do in them. Cutting loses nothing: the clusters
of a text, one after the other, are the text.
-/

namespace TapeMachine.Text

namespace ClusterClass

def isMark : ClusterClass → Bool
  | extender | linker | nonJoiner => true
  | _ => false

/-- Whether marks or a joiner may stand between consonants that a linker joins. -/
def isConjoining : ClusterClass → Bool
  | extender | linker | joiner => true
  | _ => false

/-- A pictograph and its marks. The last class comes first. -/
def endsInPicture (classes : List ClusterClass) : Bool :=
  (classes.dropWhile isMark).head? = some pictograph

/-- A consonant and a linker, with nothing but marks and joiners beside it. -/
def endsInLinker (classes : List ClusterClass) : Bool :=
  linker ∈ classes.takeWhile isConjoining ∧
    (classes.dropWhile isConjoining).head? = some consonant

/-- An odd number of regional characters, so that the last of them waits for its partner. -/
def endsInHalfFlag (classes : List ClusterClass) : Bool :=
  (classes.takeWhile (· = regional)).length % 2 = 1

/-- Whether a cluster goes on with a character of the class `next`. It holds the class `last` and
before that, last first, the classes `before`. -/
def goesOn (last : ClusterClass) (before : List ClusterClass) (next : ClusterClass) : Bool :=
  match last, next with
  | .carriageReturn, .lineFeed => true
  | .carriageReturn, _ | .lineFeed, _ | .control, _ => false
  | _, .carriageReturn | _, .lineFeed | _, .control => false
  | .leading, .leading | .leading, .vowel | .leading, .openSyllable
  | .leading, .closedSyllable => true
  | .openSyllable, .vowel | .openSyllable, .trailing | .vowel, .vowel | .vowel, .trailing => true
  | .closedSyllable, .trailing | .trailing, .trailing => true
  | _, .extender | _, .linker | _, .joiner | _, .nonJoiner | _, .spacingMark => true
  | .frontMark, _ => true
  | _, .consonant => endsInLinker (last :: before)
  | .joiner, .pictograph => endsInPicture before
  | .regional, .regional => endsInHalfFlag (last :: before)
  | _, _ => false

end ClusterClass

/-- Clusters that are finished, last first, and the one in progress, its last character first. -/
structure Clustering where
  finished : List (List Char) := []
  current : List Char := []
  /-- The classes of the characters in progress. -/
  classes : List ClusterClass := []

namespace Clustering

def all (s : Clustering) : List (List Char) :=
  (if s.current = [] then s.finished else s.current.reverse :: s.finished).reverse

def push (s : Clustering) (c : Char) : Clustering :=
  let next := ClusterClass.ofChar c
  match s.classes with
  | [] => { s with current := c :: s.current, classes := [next] }
  | last :: before =>
    if last.goesOn before next then
      { s with current := c :: s.current, classes := next :: last :: before }
    else ⟨s.current.reverse :: s.finished, [c], [next]⟩

theorem flatten_all (s : Clustering) :
    s.all.flatten = s.finished.reverse.flatten ++ s.current.reverse := by
  unfold all
  split <;> simp [*]

theorem flatten_push (s : Clustering) (c : Char) :
    (s.push c).all.flatten = s.all.flatten ++ [c] := by
  simp only [push, flatten_all]
  split
  · simp
  · split <;> simp

theorem flatten_foldl_push (cs : List Char) (s : Clustering) :
    (cs.foldl push s).all.flatten = s.all.flatten ++ cs := by
  induction cs generalizing s with
  | nil => simp
  | cons c cs ih => rw [List.foldl_cons, ih, flatten_push, List.append_assoc, List.singleton_append]

end Clustering

def clusters (cs : List Char) : List (List Char) := (cs.foldl Clustering.push {}).all

theorem flatten_clusters (cs : List Char) : (clusters cs).flatten = cs :=
  Clustering.flatten_foldl_push cs {}

end TapeMachine.Text
