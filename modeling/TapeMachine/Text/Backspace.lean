import TapeMachine.Text.Cluster

/-!
# Backspaces

A backspace takes back the cluster before it, if there is one. A line without backspaces stays as
it is.
-/

namespace TapeMachine.Text

def backspace : Char := '\x08'

def utf8Size (cs : List Char) : Nat := cs.foldr (fun c size => c.utf8Size + size) 0

/-- What was typed so far, last character first, and the sizes of its clusters, last size first. A
size is remembered as a byte, so that of a huge cluster only the end is taken back. -/
structure Typed where
  text : List Char := []
  sizes : List UInt8 := []

namespace Typed

/-- Takes back characters until `size` bytes are gone. -/
def dropBytes : Nat → List Char → List Char
  | _, [] => []
  | size, c :: cs => if size = 0 then c :: cs else dropBytes (size - c.utf8Size) cs

def push (t : Typed) (cluster : List Char) : Typed :=
  if cluster = [backspace] then
    match t.sizes with
    | [] => t
    | size :: sizes => ⟨dropBytes size.toNat t.text, sizes⟩
  else ⟨cluster.reverse ++ t.text, .ofNat (utf8Size cluster) :: t.sizes⟩

theorem text_foldl_push {clusters : List (List Char)} (h : [backspace] ∉ clusters) (t : Typed) :
    (clusters.foldl push t).text = clusters.flatten.reverse ++ t.text := by
  induction clusters generalizing t with
  | nil => simp
  | cons cluster rest ih =>
    rw [List.foldl_cons, ih fun hm => h (List.mem_cons_of_mem _ hm)]
    have hne : cluster ≠ [backspace] := fun he => h (he ▸ List.mem_cons_self)
    simp [push, hne]

end Typed

def applyBackspaces (line : String) : String :=
  String.ofList ((clusters line.toList).foldl Typed.push {}).text.reverse

theorem applyBackspaces_of_not_mem {line : String} (h : backspace ∉ line.toList) :
    applyBackspaces line = line := by
  have hc : [backspace] ∉ clusters line.toList := fun hm =>
    h (flatten_clusters line.toList ▸ List.mem_flatten_of_mem hm (List.mem_singleton_self _))
  simp [applyBackspaces, Typed.text_foldl_push hc, flatten_clusters]

end TapeMachine.Text
