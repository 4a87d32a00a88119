import KimRpc.Network.ServerModel

/-! Channels and servers that are connected. Any number of channels open connections, any
number of servers of either kind accept them, and each connection carries two streams of bytes
that may come late, in pieces, or not at all, but neither changed nor twice. -/

namespace KimRpc.Network

open Client Server Library.FramePieces Library.Runs Wire

/-- The protobuf runtime, which both sides share, the response types of the calls of each
channel, and the server of each address. -/
structure Deployment (ι : Type) (service : Request → Bytes → Prop) where
  codec : HeaderCodec
  parses : ι → ℕ → Bytes → Bool
  server : String → ServerModel codec service

variable {ι : Type} {service : Request → Bytes → Prop}

def Deployment.env (dep : Deployment ι service) (i : ι) : ChannelEnv := ⟨dep.codec, dep.parses i⟩

/-- A connection is known to its channel by one number and to its server by another. -/
structure System (dep : Deployment ι service) where
  channels : ι → Channel × (ℕ → Bytes)
  servers : ∀ host, (dep.server host).State
  socketOf : ι × ℕ → Option (String × ℕ)
  linkOf : String × ℕ → Option (ι × ℕ)

/-- A step of a channel, or of a server; an accept says whose connection it takes, if it is
one of the channels'. -/
inductive Act (dep : Deployment ι service) where
  | call (i : ι) (a : Client.Action)
  | serve (host : String) (a : (dep.server host).Action) (peer : Option (ι × ℕ))

def listen (env : ChannelEnv) : Channel × (ℕ → Bytes) → Client.Action →
    Option (Channel × (ℕ → Bytes)) :=
  noted (Channel.step env) Channel.noteGot

namespace System

variable {dep : Deployment ι service} (n : System dep)

def channel (i : ι) : Channel := (n.channels i).1

def got (i : ι) : ℕ → Bytes := (n.channels i).2

def accepts (host : String) : ℕ := (dep.server host).accepts (n.servers host)

def received (host : String) : ℕ → Bytes := (dep.server host).received (n.servers host)

def requests (host : String) : ℕ → List Request := (dep.server host).requests (n.servers host)

def sent (host : String) : ℕ → Bytes := (dep.server host).sent (n.servers host)

def written (l : ι × ℕ) :
    Bytes := (((n.channel l.1).links[l.2]?).map (fun link => bytes link.wire)).getD []

variable [DecidableEq ι]

/-- What the network allows: an end receives what comes next from the other end, and an accept
takes a connection that was opened to this host and is not taken yet. -/
def Enabled : Act dep → Prop
  | .call i a => ∀ piece ∈ a.piece, ∀ fd ∈ (n.channel i).clientfd,
      ∃ q ∈ n.socketOf (i, fd), n.got i fd ++ piece <+: n.sent q.1 q.2
  | .serve host a peer =>
    (∀ x ∈ (dep.server host).arrival (n.servers host) a, ∀ l ∈ n.linkOf (host, x.1),
      n.received host x.1 ++ x.2 <+: n.written l) ∧
    ((dep.server host).accepting a = true →
      ∀ l ∈ peer, n.socketOf l = none ∧ ∃ link ∈ (n.channel l.1).links[l.2]?, link.hostData = host)

instance Enabled.decidable : ∀ act, Decidable (n.Enabled act)
  | .call _ _ => inferInstanceAs (Decidable (∀ piece ∈ _, ∀ fd ∈ _, ∃ q ∈ _, _))
  | .serve _ _ _ =>
    inferInstanceAs (Decidable ((∀ x ∈ _, ∀ l ∈ _, _) ∧ (_ → ∀ l ∈ _, _ ∧ ∃ link ∈ _, _)))

def attach (host : String) (a : (dep.server host).Action) (peer : Option (ι × ℕ)) : System dep :=
  match (dep.server host).accepting a, peer with
  | true, some l =>
    { n with
      socketOf := Function.update n.socketOf l (some (host, n.accepts host))
      linkOf := Function.update n.linkOf (host, n.accepts host) (some l) }
  | _, _ => n

def effect (n : System dep) : Act dep → Option (System dep)
  | .call i a =>
    (listen (dep.env i) (n.channels i) a).map
      (fun c => { n with channels := Function.update n.channels i c })
  | .serve host a peer => ((dep.server host).step (n.servers host) a).map (fun x =>
      { n.attach host a peer with servers := Function.update n.servers host x })

def step (n : System dep) (act : Act dep) : Option (System dep) :=
  if n.Enabled act then n.effect act else none

variable (dep) in
def start : System dep where
  channels _ := (Channel.constructed, fun _ => [])
  servers host := (dep.server host).start
  socketOf _ := none
  linkOf _ := none

/-- What the callers and the servers are assumed to do: a connection is given up when a send
fails on it, messages have a size that protobuf allows, and the servers meet their conditions. -/
def Proper (n : System dep) : Act dep → Prop
  | .call i a => (n.channel i).keepsFrames a = true ∧ (n.channel i).fits (dep.env i) a = true
  | .serve host a _ => (dep.server host).ok (n.servers host) a

instance (n : System dep) : ∀ act, Decidable (Proper n act)
  | .call _ _ => inferInstanceAs (Decidable (_ ∧ _))
  | .serve host a _ => (dep.server host).decideOk (n.servers host) a

end System

end KimRpc.Network
