import Sendword.Toml.Document

/-!
# Object stores

A bucket holds objects under keys; a listing gives the objects whose key
starts with a text, in the order of the keys.
-/

namespace Files

open Toml

/-- The objects of a bucket, each under a key of its own. -/
structure ObjectStore (Object : Type) where
  objects : List (String × Object)
  sorted : Sorted objects

namespace ObjectStore

variable {Object : Type} (store : ObjectStore Object)

def get? (key : String) : Option Object := store.objects.lookup key

def put (key : String) (object : Object) : ObjectStore Object where
  objects := insert key object store.objects
  sorted := sorted_insert key object store.sorted

def delete (key : String) : ObjectStore Object where
  objects := remove key store.objects
  sorted := sorted_remove key store.sorted

/-- The objects whose key starts with the text. -/
def under (start : String) : List (String × Object) :=
  store.objects.filter fun entry =>
    start.toList.isPrefixOf entry.1.toList

variable {store} {key other start : String} {object : Object}

theorem get?_put :
    (store.put key object).get? other =
      if other = key then some object else store.get? other :=
  lookup_insert key other object store.objects

theorem get?_delete :
    (store.delete key).get? other =
      if other = key then none else store.get? other :=
  lookup_remove key other store.objects

theorem mem_under :
    (key, object) ∈ store.under start ↔
      start.toList <+: key.toList ∧ store.get? key = some object := by
  unfold under get?
  rw [List.mem_filter, mem_iff_lookup store.sorted, and_comm,
    List.isPrefixOf_iff_prefix]

end ObjectStore

end Files
