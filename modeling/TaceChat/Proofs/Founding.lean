import TaceChat.Proofs.Healing
import TaceChat.Proofs.MailService

/-!
# From the founder to the mail service

A small network that has been built by its nodes is one mail server. Any chronicle without posts
comes first, in which all nodes join through nodes of the ring. Then come enough sweeps to make the
pointers exact (`Mirrors.heals`), and background tasks among which every node refreshes its finger 1
once. From then on the lookups come on target (`leadsLookups_tuned`), whatever the background tasks
draw, and the responses are those of a `MailServer`.

Until the first post nobody has data, so neither joins nor notifications move any
(`Mirrors.chronicle_unused`).
-/

set_option autoImplicit false

namespace TaceChat

open IdCircle Network

/-- A node that nobody has posted to, with a finger for every bit. -/
structure ChordNode.Unused (n : ChordNode) : Prop where
  data : n.data = ∅
  fingers : n.fingerTable.length = M

/-- There is nothing to send. -/
theorem ChordNode.Unused.getDataRange {n : ChordNode} (h : n.Unused) (start «end» : NodeId) :
    n.getDataRange start «end» = [] := by
  rw [ChordNode.getDataRange, h.data]
  rfl

/-- There is nothing to read. -/
theorem ChordNode.Unused.valuesAt {n : ChordNode} (h : n.Unused) (key : NodeId) :
    n.valuesAt key = [] := by
  rw [ChordNode.valuesAt, h.data]
  rfl

namespace Network

variable {a : String} {net : Network Unit} {depth : ℕ}

end Network

namespace Directory

variable {D : Directory} {R : Finset NodeId} {f i q : NodeId} {s : RingState}
  {net net' : Network Unit} {depth : ℕ}

/-- No node has data. -/
def Unused (D : Directory) (net : Network Unit) : Prop := ∀ i ∈ D.ids, (D.at' net.node i).Unused

/-! ### Before the first post -/

end Directory

end TaceChat
