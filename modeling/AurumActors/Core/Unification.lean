/-
  Core/Unification.lean --- the unified type of an application and the messages
  it tells apart, from `core/unification.rs`, `core/packets.rs`,
  `core/remoting.rs` and `core/actor_ref.rs`, with the implementations that the
  macros write.

  An application is what the compiler accepts: the arguments of `unify!` parse,
  every root message type is derived, no type is listed twice, and no conversion
  is ambiguous.  CBOR is a parameter.
-/
import AurumActors.Core.Registry
import AurumActors.Foundation.While
import AurumActors.Macros.Unify

set_option autoImplicit false

namespace AurumActors.Core

open AurumActors.Macros

/-! ## The message types of the crate -/

section Crate

/-- `#[aurum]` -/
def aurum : Attribute := ⟨"aurum", .empty⟩

/-- `#[aurum(local)]` -/
def aurumLocal : Attribute := ⟨"aurum", .parenthesized [.path ["local"]]⟩

def registryMsg : DeriveInput MessageType where
  self := .registryMsg
  generics := [.type "U"]
  attrs := [aurumLocal]
  data := .enum [
    ⟨"Forward", [], .unnamed [.named "MessageBuilder"]⟩,
    ⟨"Register", [], .unnamed [.named "ActorId<U>", .named "SerializedRecvr<U>",
      .named "Sender<()>"]⟩,
    ⟨"Deregister", [], .unnamed [.named "ActorId<U>"]⟩]

def clusterMsg : DeriveInput MessageType where
  self := .clusterMsg
  generics := [.type "U"]
  attrs := [aurumLocal]
  data := .enum [
    ⟨"IntraMsg", [aurum], .unnamed [.intraClusterMsg]⟩,
    ⟨"LocalCmd", [aurumLocal], .unnamed [.named "ClusterCmd"]⟩,
    ⟨"PingTimeout", [], .unit⟩,
    ⟨"GossipTimeout", [], .unit⟩,
    ⟨"Downed", [], .unnamed [.named "Arc<Member>"]⟩,
    ⟨"HeartbeatTick", [], .unit⟩]

def heartbeatReceiverMsg : DeriveInput MessageType where
  self := .heartbeatReceiverMsg
  generics := []
  attrs := []
  data := .enum [⟨"Heartbeat", [], .unnamed [.named "Duration", .named "u32"]⟩]

def deviceServerMsg : DeriveInput MessageType where
  self := .deviceServerMsg
  generics := []
  attrs := [aurumLocal]
  data := .enum [
    ⟨"Remote", [aurum], .unnamed [.deviceServerRemoteMsg]⟩,
    ⟨"Update", [aurumLocal], .unnamed [.named "ClusterUpdate"]⟩,
    ⟨"DeviceData", [aurumLocal], .unnamed [.named "Devices"]⟩,
    ⟨"Cmd", [aurumLocal], .unnamed [.named "DeviceServerCmd"]⟩,
    ⟨"AmISender", [], .unnamed [.named "Device"]⟩,
    ⟨"DownedDevice", [], .unnamed [.named "Device"]⟩]

def deviceClientMsg : DeriveInput MessageType where
  self := .deviceClientMsg
  generics := [.type "U"]
  attrs := [aurumLocal]
  data := .enum [
    ⟨"Tick", [], .unit⟩,
    ⟨"Remote", [aurum], .unnamed [.deviceClientRemoteMsg]⟩,
    ⟨"Cmd", [aurumLocal], .unnamed [.named "DeviceClientCmd"]⟩]

def hbReqSenderMsg : DeriveInput MessageType where
  self := .hbReqSenderMsg
  generics := []
  attrs := []
  data := .enum [
    ⟨"Remote", [aurum], .unnamed [.hbReqSenderRemoteMsg]⟩,
    ⟨"Interval", [], .unnamed [.named "DeviceInterval"]⟩,
    ⟨"Tick", [], .unit⟩]

/-- `CausalMsg<S>`, at `Devices`. -/
def causalMsg : DeriveInput MessageType where
  self := .causalMsg
  generics := [.type "S"]
  attrs := [aurumLocal]
  data := .enum [
    ⟨"Cmd", [aurumLocal], .unnamed [.named "CausalCmd<S>"]⟩,
    ⟨"Intra", [aurum], .unnamed [.causalIntraMsg]⟩,
    ⟨"Update", [aurumLocal], .unnamed [.named "ClusterUpdate"]⟩,
    ⟨"DisperseTimeout", [], .unit⟩]

def loggerMsg : DeriveInput MessageType where
  self := .loggerMsg
  generics := []
  attrs := [aurumLocal]
  data := .enum [
    ⟨"Log", [], .named [(.named "LogLevel", "level"), (.named "&'static str", "file"),
      (.named "u32", "line"), (.named "u32", "column"),
      (.named "Box<dyn Display + Send + 'static>", "msg")]⟩,
    ⟨"SetLevel", [], .unnamed [.named "LogLevel"]⟩,
    ⟨"Special", [], .unnamed [.named "LogSpecial"]⟩]

/-- The root message types of the crate, in the order of `specifics`. -/
def crateDecls : List (DeriveInput MessageType) :=
  [registryMsg, clusterMsg, heartbeatReceiverMsg, deviceServerMsg, deviceClientMsg,
    hbReqSenderMsg, causalMsg, loggerMsg]

end Crate

/-! ## Applications -/

/-- An application as the compiler accepts it. -/
structure Application where
  /-- the arguments of `unify!` -/
  args : List (String × UnifyValue)
  unification : Unification
  parsed : Unification.parse args = .ok unification
  /-- the declarations of its own root message types -/
  decls : List (DeriveInput MessageType)
  roots : List (RootImpl MessageType)
  derived : (crateDecls ++ decls).mapM derive = .ok roots
  /-- what is listed as a root message type implements `RootMessage` -/
  typed : roots.map (·.typeId) = unification.specifics
  /-- a type that is listed twice has conflicting implementations of `Case` -/
  nodup : unification.all.Nodup
  /-- no conflicting implementations of `From` -/
  coherent : ∀ root ∈ roots, root.Coherent
  /-- the bounds of the implementations of `RootMessage` -/
  bounded : ∀ root ∈ roots, ∀ t ∈ root.cases, t ∈ unification.all

/-- A value of a message type: a variant with one field, or anything else. -/
inductive Value where
  | plain (ty : MessageType) (data : List UInt8)
  | variant (ty : MessageType) (name : String) (item : Value)
  deriving DecidableEq

def Value.ty : Value → MessageType
  | .plain ty _ | .variant ty _ _ => ty

/-- `serialize` and `deserialize` of `core/packets.rs`, for the values of message
types, for `ActorSignal::Term` and for destinations. -/
structure Cbor where
  serialize : Value → List UInt8
  deserialize : MessageType → List UInt8 → Option Value
  serializeTerm : List UInt8
  deserializeTerm : List UInt8 → Option Unit
  serializeDest : DestinationUntyped String → List UInt8
  deserializeDest : List UInt8 → Option (DestinationUntyped String)

inductive DeserializeError where
  | incompatibleInterface (interface variant : String)
  | other (interface : String)
  deriving DecidableEq

/-- `local_actor_msg_convert`, with the conversion of the items. -/
def LocalActorMsg.convert {S I : Type} (convert : I → S) : LocalActorMsg I → LocalActorMsg S
  | .msg item => .msg (convert item)
  | .term => .term

end AurumActors.Core

namespace AurumActors.Macros.RootImpl

open AurumActors.Core

/-- `From<I>` of a root message type: the reflexive one, or the one that `expand`
writes.  There is no other `I`. -/
def fromInterface (root : RootImpl MessageType) (interface : MessageType) (item : Value) : Value :=
  if interface = root.typeId then item
  else match root.fromImpls.find? (·.fieldType = interface) with
    | some impl => .variant root.typeId impl.variantName item
    | none => item

/-- `deserialize_msg::<U, S, I>` -/
def deserializeMsg (cbor : Cbor) (root : RootImpl MessageType) (I : MessageType)
    (interface : String) (intp : Interpretations) (bytes : List UInt8) :
    Except DeserializeError (LocalActorMsg Value) :=
  match intp with
  | .message =>
      match cbor.deserialize I bytes with
      | some res => .ok (.msg (root.fromInterface I res))
      | none => .error (.other interface)
  | .signal =>
      match cbor.deserializeTerm bytes with
      | some () => .ok .term
      | none => .error (.other interface)

/-- `deserialize_as`, as `expand` writes it: the first interface with the variant
counts. -/
def deserializeAs (cbor : Cbor) (u : Unification) (root : RootImpl MessageType)
    (interface : String) (intp : Interpretations) (bytes : List UInt8) :
    Except DeserializeError (LocalActorMsg Value) :=
  match root.nonLocals.find? (u.variant · = interface) with
  | some I => root.deserializeMsg cbor I interface intp bytes
  | none => .error (.incompatibleInterface interface (u.variant root.typeId))

/-- `RootMessage::has_interface`, as `expand` writes it. -/
def hasInterface (u : Unification) (root : RootImpl MessageType) (interface : String) : Bool :=
  root.nonLocals.any (u.variant · = interface)

end AurumActors.Macros.RootImpl

namespace AurumActors.Core

open AurumActors.Macros

namespace Application

/-- The root message type that a variant stands for, if it stands for one. -/
def root? (app : Application) (variant : String) : Option (RootImpl MessageType) :=
  (app.unification.specificVariants.zip app.roots).lookup variant

/-- `UnifiedType::has_interface`, as `unify!` writes it. -/
def hasInterface (app : Application) (self interface : String) : Bool :=
  match app.root? self with
  | some root => root.hasInterface app.unification interface
  | none => false

/-- What a node makes of bytes. -/
def serde (app : Application) (cbor : Cbor) : Serde String Value where
  destination := cbor.deserializeDest
  deserializeAs recvType interface intp bytes :=
    (app.root? recvType).bind fun root =>
      (root.deserializeAs cbor app.unification interface intp bytes).toOption

end Application

/-! ## References -/

/-- `Destination<U, I>` -/
structure Destination (I : MessageType) where
  untyped : DestinationUntyped String
  deriving DecidableEq

namespace Destination

/-- `Destination::new::<S>` -/
protected def new (u : Unification) (S I : MessageType) (s : String) : Destination I where
  untyped := ⟨⟨u.variant S, s⟩, u.variant I⟩

/-- A destination whose bytes are read under another type: they hold no type. -/
def readAs {J : MessageType} (I : MessageType) (dest : Destination J) : Destination I :=
  ⟨dest.untyped⟩

/-- `Destination::valid` -/
def valid {I : MessageType} (app : Application) (dest : Destination I) : Bool :=
  app.hasInterface dest.untyped.name.recvType (app.unification.variant I)

end Destination

/-- A local reference: the task whose channel it sends to, and what it makes of
an item. -/
structure LocalRef where
  task : Nat
  convert : Value → Value

/-- `LocalRef::send`, with what arrives in the channel. -/
def LocalRef.send (r : LocalRef) (item : Value) : Nat × ActorMsg Value :=
  (r.task, .msg (LocalActorMsg.convert r.convert (.msg item)))

structure ActorRef (I : MessageType) where
  socket : Socket
  dest : Destination I
  localRef : Option LocalRef

/-- What a send does: a message in a channel, or bytes for a socket. -/
inductive Sent where
  | here (task : Nat) (msg : ActorMsg Value)
  | udp (socket : Socket) (item : List UInt8) (intp : Interpretations) (dest : List UInt8)
  deriving DecidableEq

namespace ActorRef

variable {I : MessageType}

/-- `ActorRef::new::<S>` -/
protected def new (u : Unification) (S I : MessageType) (name : String) (socket : Socket) :
    ActorRef I :=
  ⟨socket, .new u S I name, none⟩

/-- `ActorRef::remote_send` -/
def remoteSend (cbor : Cbor) (r : ActorRef I) (item : Value) : Sent :=
  .udp r.socket (cbor.serialize item) .message (cbor.serializeDest r.dest.untyped)

/-- `ActorRef::send` and `ActorRef::move_to` -/
def send (cbor : Cbor) (r : ActorRef I) (item : Value) : Sent :=
  match r.localRef with
  | some l => .here (l.send item).1 (l.send item).2
  | none => r.remoteSend cbor item

/-- `ActorRef::signal` with `ActorSignal::Term` -/
def signal (cbor : Cbor) (r : ActorRef I) : Sent :=
  match r.localRef with
  | some l => .here l.task (.msg .term)
  | none => .udp r.socket cbor.serializeTerm .signal (cbor.serializeDest r.dest.untyped)

end ActorRef

/-- `ActorContext::interface` of the actor in a task, at its own socket. -/
def interface (u : Unification) (root : RootImpl MessageType) (I : MessageType) (name : String)
    (socket : Socket) (task : Nat) : ActorRef I where
  socket := socket
  dest := .new u root.typeId I name
  localRef := some ⟨task, root.fromInterface I⟩

/-! ## What an interface lets through -/

namespace Application

variable {app : Application} {root : RootImpl MessageType} {t : MessageType}

theorem nonLocals_subset (hroot : root ∈ app.roots) (h : t ∈ root.nonLocals) :
    t ∈ app.unification.all :=
  app.bounded root hroot t (RootImpl.mem_cases_of_nonLocals h)

/-- The first interface with the variant of a type is that type. -/
theorem find?_variant (hroot : root ∈ app.roots) (ht : t ∈ app.unification.all) :
    root.nonLocals.find? (app.unification.variant · = app.unification.variant t) =
      if t ∈ root.nonLocals then some t else none := by
  cases hfind : root.nonLocals.find? (app.unification.variant · = app.unification.variant t) with
  | none =>
      have hnone := List.find?_eq_none.mp hfind
      rw [if_neg fun hmem => hnone t hmem (by simp)]
  | some I =>
      have hmem := List.mem_of_find?_eq_some hfind
      have heq : app.unification.variant I = app.unification.variant t := by
        simpa using List.find?_some hfind
      obtain rfl := (Unification.variant_inj app.nodup (app.nonLocals_subset hroot hmem) ht).mp heq
      rw [if_pos hmem]

theorem hasInterface_iff (hroot : root ∈ app.roots) (ht : t ∈ app.unification.all) :
    root.hasInterface app.unification (app.unification.variant t) = true ↔
      t ∈ root.nonLocals := by
  have hany : root.hasInterface app.unification (app.unification.variant t) =
      (root.nonLocals.find? (app.unification.variant · = app.unification.variant t)).isSome :=
    List.isSome_find?.symm
  rw [hany, find?_variant hroot ht]
  split <;> simp [*]

theorem deserializeAs_eq (cbor : Cbor) (hroot : root ∈ app.roots)
    (ht : t ∈ app.unification.all) (intp : Interpretations) (bytes : List UInt8) :
    root.deserializeAs cbor app.unification (app.unification.variant t) intp bytes =
      if t ∈ root.nonLocals then
        root.deserializeMsg cbor t (app.unification.variant t) intp bytes
      else .error (.incompatibleInterface (app.unification.variant t)
        (app.unification.variant root.typeId)) := by
  rw [RootImpl.deserializeAs, find?_variant hroot ht]
  by_cases hmem : t ∈ root.nonLocals
  · rw [if_pos hmem, if_pos hmem]
  · rw [if_neg hmem, if_neg hmem]

/-- The variant of a root message type stands for it. -/
theorem root?_variant (hroot : root ∈ app.roots) :
    app.root? (app.unification.variant root.typeId) = some root := by
  obtain ⟨i, hi⟩ := List.mem_iff_getElem?.mp hroot
  refine Foundation.lookup_zip (Unification.nodup_specificVariants _) ?_ hi
  rw [Unification.specificVariants_eq app.nodup, ← app.typed, List.map_map, List.getElem?_map, hi]
  rfl

/-- What a node makes of bytes for an actor under an interface that it has. -/
theorem serde_deserializeAs (cbor : Cbor) (hroot : root ∈ app.roots) (ht : t ∈ root.nonLocals)
    (intp : Interpretations) (bytes : List UInt8) :
    (app.serde cbor).deserializeAs (app.unification.variant root.typeId)
        (app.unification.variant t) intp bytes =
      (root.deserializeMsg cbor t (app.unification.variant t) intp bytes).toOption := by
  simp only [serde, root?_variant hroot, Option.bind_some,
    deserializeAs_eq cbor hroot (app.nonLocals_subset hroot ht), if_pos ht]

/-- A destination is valid if its actor has the interface, whatever interface it
carries. -/
theorem valid_iff (hroot : root ∈ app.roots) (ht : t ∈ app.unification.all)
    (name interface : String) :
    (⟨⟨⟨app.unification.variant root.typeId, name⟩, interface⟩⟩ : Destination t).valid app = true ↔
      t ∈ root.nonLocals := by
  rw [Destination.valid, hasInterface, root?_variant hroot]
  exact hasInterface_iff hroot ht

/-- What the root message types of the crate let through from other nodes. -/
def crateInterfaces : List (MessageType × List MessageType) :=
  [(.registryMsg, []),
    (.clusterMsg, [.intraClusterMsg]),
    (.heartbeatReceiverMsg, [.heartbeatReceiverMsg]),
    (.deviceServerMsg, [.deviceServerRemoteMsg]),
    (.deviceClientMsg, [.deviceClientRemoteMsg]),
    (.hbReqSenderMsg, [.hbReqSenderRemoteMsg, .hbReqSenderMsg]),
    (.causalMsg, [.causalIntraMsg]),
    (.loggerMsg, [])]

theorem crate_nonLocals (app : Application) :
    (app.roots.take crateDecls.length).map (fun root => (root.typeId, root.nonLocals)) =
      crateInterfaces := by
  have hderived := app.derived
  rw [List.mapM_append] at hderived
  obtain ⟨roots, hroots, hderived⟩ := Foundation.bind_eq_ok_iff.mp hderived
  obtain ⟨own, -, happ⟩ := Foundation.bind_eq_ok_iff.mp hderived
  rw [← Except.ok.inj happ]
  have hlen : crateDecls.length = roots.length := by
    rw [← Except.ok.inj hroots]
    rfl
  rw [hlen, List.take_left, ← Except.ok.inj hroots]
  rfl

/-- In every application the variants of the unified type tell all message types
apart, and the root message types of the crate have their interfaces.  A
destination that is read under a type is valid exactly if its actor has that
interface; what a node makes of the bytes of a message goes by the interface that
the destination carries; and where the two are one, a message that is sent from
another node through a valid destination is the message that a local reference
sends. -/
theorem interfaces_exact (app : Application) (cbor : Cbor) :
    (∀ t ∈ app.unification.all, ∀ t' ∈ app.unification.all,
      (app.unification.variant t = app.unification.variant t' ↔ t = t')) ∧
    (app.roots.take crateDecls.length).map (fun root => (root.typeId, root.nonLocals)) =
      crateInterfaces ∧
    ∀ root ∈ app.roots, ∀ I ∈ app.unification.all, ∀ J ∈ app.unification.all,
      ∀ (name : String) (dest : Destination I),
        dest.untyped = ⟨⟨app.unification.variant root.typeId, name⟩, app.unification.variant J⟩ →
        (dest.valid app = true ↔ I ∈ root.nonLocals) ∧
        (∀ intp bytes,
          root.deserializeAs cbor app.unification dest.untyped.interface intp bytes =
            if J ∈ root.nonLocals then root.deserializeMsg cbor J dest.untyped.interface intp bytes
            else .error (.incompatibleInterface dest.untyped.interface
              dest.untyped.name.recvType)) ∧
        (I = J → dest.valid app = true → ∀ (item : Value) (socket : Socket) (task : Nat),
          cbor.deserialize I (cbor.serialize item) = some item →
          ∃ msg, (interface app.unification root I name socket task).send cbor item =
              .here task (.msg msg) ∧
            root.deserializeAs cbor app.unification dest.untyped.interface .message
              (cbor.serialize item) = .ok msg) := by
  refine ⟨fun t ht t' ht' => Unification.variant_inj app.nodup ht ht', crate_nonLocals app, ?_⟩
  rintro root hroot I hI J hJ name ⟨untyped⟩ rfl
  dsimp only
  have hvalid := valid_iff hroot hI name (app.unification.variant J)
  refine ⟨hvalid, deserializeAs_eq cbor hroot hJ, ?_⟩
  rintro rfl hdest item socket task hitem
  refine ⟨.msg (root.fromInterface I item), rfl, ?_⟩
  rw [deserializeAs_eq cbor hroot hI, if_pos (hvalid.mp hdest), RootImpl.deserializeMsg]
  simp only [hitem]

end Application

/-! ## Two root message types with strings -/

section Quz

/-- `Foo` of `ref_safety`. -/
def foo : DeriveInput MessageType where
  self := .named "Foo"
  generics := []
  attrs := []
  data := .enum [⟨"One", [aurum], .unnamed [.named "String"]⟩]

/-- `Bar` of `ref_safety`. -/
def bar : DeriveInput MessageType where
  self := .named "Bar"
  generics := []
  attrs := []
  data := .enum [⟨"One", [aurum], .unnamed [.named "String"]⟩,
    ⟨"Two", [aurum], .unnamed [.named "i32"]⟩]

/-- The roots of the crate and those two. -/
def quzRoots : List (RootImpl MessageType) :=
  ((crateDecls ++ [foo, bar]).mapM derive).toOption.getD []

/-- The unified type of `ref_safety`. -/
def quz : Application where
  args := [("unified_name", .name "Quz"),
    ("root_types", .types [.named "Foo", .named "Bar"]),
    ("interfaces", .types [.named "String", .named "i32"])]
  unification := ⟨"Quz", [.named "Foo", .named "Bar"], [.named "String", .named "i32"]⟩
  parsed := rfl
  decls := [foo, bar]
  roots := quzRoots
  derived := rfl
  typed := rfl
  nodup := by decide
  coherent := by
    unfold RootImpl.Coherent
    decide
  bounded := by decide

/-- No item is lost when bytes are the items themselves. -/
def plainCbor : Cbor where
  serialize
    | .plain _ data => data
    | .variant .. => []
  deserialize ty bytes := some (.plain ty bytes)
  serializeTerm := [0]
  deserializeTerm _ := some ()
  serializeDest _ := []
  deserializeDest _ := none

/-- A destination of `Foo`. -/
def fooDest : Destination (.named "Foo") := .new quz.unification (.named "Foo") (.named "Foo") "foo"

/-- A destination of strings at an actor of `Foo`. -/
def stringDest : Destination (.named "String") :=
  .new quz.unification (.named "Foo") (.named "String") "foo"

/-- A destination of `Foo` is valid as one of strings too, and not as one of
`Bar` or of numbers.  A string that is sent to a destination of strings comes as
the message that a local reference sends. -/
theorem interfaces_exact_quz :
    ((fooDest.readAs (.named "Foo")).valid quz = true ∧
      (fooDest.readAs (.named "String")).valid quz = true ∧
      ¬ (fooDest.readAs (.named "Bar")).valid quz = true ∧
      ¬ (fooDest.readAs (.named "i32")).valid quz = true) ∧
    ∃ root ∈ quz.roots, root.typeId = .named "Foo" ∧ stringDest.valid quz = true ∧
      ∃ msg, (interface quz.unification root (.named "String") "foo" (Socket.localhost 10) 0).send
          plainCbor (.plain (.named "String") [97]) = .here 0 (.msg msg) ∧
        root.deserializeAs plainCbor quz.unification stringDest.untyped.interface .message [97] =
          .ok msg := by
  obtain ⟨root, hroot, hfoo, hnonLocals⟩ : ∃ root ∈ quz.roots, root.typeId = .named "Foo" ∧
      root.nonLocals = [.named "String", .named "Foo"] := by decide
  constructor
  · have hvalid : ∀ I ∈ quz.unification.all,
        ((fooDest.readAs I).valid quz = true ↔ I ∈ [.named "String", .named "Foo"]) := by
      intro I hI
      rw [← hnonLocals]
      have hdest : (fooDest.readAs I).untyped =
          ⟨⟨quz.unification.variant root.typeId, "foo"⟩, quz.unification.variant (.named "Foo")⟩ := by
        rw [hfoo]
        rfl
      have hexact := (Application.interfaces_exact quz plainCbor).2.2 root hroot I hI
        (.named "Foo") (by decide) "foo" (fooDest.readAs I) hdest
      exact hexact.1
    have hself := (hvalid (.named "Foo") (by decide)).mpr (by decide)
    have hstring := (hvalid (.named "String") (by decide)).mpr (by decide)
    have hbar := mt (hvalid (.named "Bar") (by decide)).mp (by decide)
    have hnumber := mt (hvalid (.named "i32") (by decide)).mp (by decide)
    exact ⟨hself, hstring, hbar, hnumber⟩
  · have hdest : stringDest.untyped = ⟨⟨quz.unification.variant root.typeId, "foo"⟩,
        quz.unification.variant (.named "String")⟩ := by
      rw [hfoo]
      rfl
    obtain ⟨hvalid, -, hsends⟩ := (Application.interfaces_exact quz plainCbor).2.2 root hroot
      (.named "String") (by decide) (.named "String") (by decide) "foo" stringDest hdest
    have hv : stringDest.valid quz = true := hvalid.mpr (by rw [hnonLocals]; decide)
    exact ⟨root, hroot, hfoo, hv, hsends rfl hv (.plain (.named "String") [97])
      (Socket.localhost 10) 0 rfl⟩

end Quz

end AurumActors.Core
