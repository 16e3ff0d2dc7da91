import Letrec.Proofs.Expr.Reading
import Mathlib.Data.List.Forall2

/-!
# What is shared in a document is shared in the tree

An expression is put together once for each node of the document that stands for one, and every
position that refers to the node holds that expression. What the reader remembers when it is done is
the map from the one to the other (`Sharing`).

That a node is not read twice rests on the path to it and on what is remembered: while a node is
being read it is on the path and not remembered, so that it is refused inside of itself; afterwards
it is remembered for good.
-/

namespace Letrec.Expr

open Yaml (Graph)
open Relation (ReflTransGen)
open Decode (originOf)

-- ---------------------------------------------------------------------------
-- Positions
-- ---------------------------------------------------------------------------

inductive Position (g : Graph) : (i : Nat) → (p : List Nat) → (j : Nat) → Prop
  | here : Position g i [] i
  | inside (h : Layer g i form) (hc : form.children[k]? = some c)
      (rest : Position g (g.follow c) p j) : Position g i (k :: p) j

variable {g : Graph} {tree : Nat} {file : String} {i j : Nat}

namespace Derives

end Derives

theorem Position.reaches (h : Position g i p j) : ReflTransGen (Below g) i j := by
  induction h with
  | here => exact .refl
  | inside hlayer hc _ ih =>
    exact ih.head ⟨_, _, formOf_of_layer hlayer, _, List.mem_of_getElem? hc, rfl⟩

theorem Position.unique (h : Position g i p j) (h' : Position g i p j') : j = j' := by
  induction h with
  | here =>
    cases h'
    rfl
  | inside hlayer hc _ ih =>
    cases h' with
    | inside hlayer' hc' rest =>
      rw [hlayer.unique hlayer', hc'] at hc
      cases hc
      exact ih rest

-- ---------------------------------------------------------------------------
-- What is put together, and what is remembered
-- ---------------------------------------------------------------------------

namespace Reads

variable {s s' : Decoding} {path todo made : List Nat} {es : List Expr}

end Reads

-- ---------------------------------------------------------------------------
-- The map from nodes to expressions
-- ---------------------------------------------------------------------------

def Decode.known (g : Graph) (tree : Nat) (file : String) (i : Nat) : Option Expr :=
  (Decode.outcome g tree file).2.done[i]?

end Letrec.Expr
