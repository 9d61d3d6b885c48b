/-
  Cluster/Member.lean --- the members of a cluster and the events about them,
  from `cluster/utils.rs`.
-/
import AurumActors.Core.Remoting

set_option autoImplicit false

namespace AurumActors.Cluster

open Std
open AurumActors.Core

attribute [local instance] lexOrd

/-- A member of a cluster.  The id tells apart the different times one node may
have joined. -/
structure Member where
  /-- the socket this member receives remote messages on -/
  socket : Socket
  /-- the unique identifier of this member -/
  id : UInt64
  /-- the number of positions of this member in a ring -/
  vnodes : UInt32
  deriving DecidableEq, Repr

namespace Member

/-- The derived order compares `socket`, then `id`, then `vnodes`. -/
def key (m : Member) : Socket × UInt64 × UInt32 := (m.socket, m.id, m.vnodes)

theorem key_injective : Function.Injective key := by
  rintro ⟨s₁, i₁, v₁⟩ ⟨s₂, i₂, v₂⟩ h
  simp_all [key]

instance : Ord Member := ⟨compareOn key⟩
instance : TransOrd Member := inferInstanceAs (TransCmp (compareOn key))
instance : LawfulEqOrd Member := lawfulEqCmp_compareOn key_injective

end Member

/-- A set of members.  The source's hash sets are iterated in an order no
function depends on; here they are kept in member order. -/
abbrev MemberSet := ExtTreeSet Member compare

/-- What a cluster tells its subscribers about a member. -/
inductive ClusterEvent where
  | alone (member : Member)
  | joined (member : Member)
  | added (member : Member)
  | removed (member : Member)
  | left
  deriving DecidableEq, Repr

end AurumActors.Cluster
