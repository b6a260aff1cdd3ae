/-!
# Sorted lists

`sortBy le` puts a list in order by insertion. Equal elements are kept, in the order they came in.
-/

namespace AppendStore

def insertBy {α : Type} (le : α → α → Bool) (a : α) : List α → List α
  | [] => [a]
  | b :: bs => if le a b then a :: b :: bs else b :: insertBy le a bs

def sortBy {α : Type} (le : α → α → Bool) (as : List α) : List α := as.foldr (insertBy le) []

end AppendStore
