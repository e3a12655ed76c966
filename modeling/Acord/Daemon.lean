import Acord.ServerSide

/-! The daemon and one of its clients: the two websocket sessions joined by the wire, and behind
the server's the coroutine that serves it and the provider it may be handed over to. -/

namespace Acord
open Ac Channels RequestLoop Transition

variable {lib : DictLib} {sch : SchemaLib}

/-- `log` is what the coroutine has done; `providerRead` and `providerWrote` are the frames the
provider took from and put into the streams once they were its own. -/
structure Daemon (sch : SchemaLib) where
  client : CommonWsSession
  server : CommonWsSession
  session : Server localEffects Exn LocalEnv
  attached : Bool
  log : List (LocalEvent sch)
  providerRead : List Ac.Frame
  providerWrote : List Ac.Frame

inductive DaemonEvent (sch : SchemaLib)
  | client (a : WsEvent)
  | server (a : WsEvent)
  | session (e : LocalEvent sch)
  | providerPop (f : Ac.Frame)
  | providerPush (f : Ac.Frame)
  | drop

/-- The coroutine runs in a context of its own: it may have pushed its state before `wsOpened`
looks into the stream. -/
inductive DaemonOpened (lib : DictLib) (sch : SchemaLib) : Daemon sch → Prop
  | waiting {cr cw : Channel Ac.Frame} (client : Unused cr cw) :
      DaemonOpened lib sch
        { client := clientWsOpened lib (lit "/cbor") cr cw
          server := serverWsOpened lib (lit "/cbor") (.create serverCap) (.create serverCap)
          session := ⟨(acordRun sch).start, ⟨false, false⟩⟩
          attached := false, log := [], providerRead := [], providerWrote := [] }
  | greeted {cr cw : Channel Ac.Frame} (client : Unused cr cw) :
      DaemonOpened lib sch
        { client := clientWsOpened lib (lit "/cbor") cr cw
          server := serverWsOpened lib (lit "/cbor") (greetingStream sch) (.create serverCap)
          session := ⟨.ret true, ⟨false, false⟩⟩
          attached := false, log := startEvents sch, providerRead := [], providerWrote := [] }

namespace Daemon

def handoff (d : Daemon sch) : Handoff where
  session := d.session
  up := d.server.writeStream
  down := d.server.readStream
  attached := d.attached

def called (d : Daemon sch) (e : LocalEvent sch) (q : Server localEffects Exn LocalEnv)
    (h : Handoff) : Daemon sch :=
  { d with
    server := { d.server with writeStream := h.up, readStream := h.down }
    session := q
    attached := h.attached
    log := d.log ++ [e] }

end Daemon

inductive DaemonStep (lib : DictLib) (sch : SchemaLib) :
    Daemon sch → DaemonEvent sch → Daemon sch → Prop
  -- A message received is the next one the other session has sent. Of the server's own events none
  -- is a push, a pop or a drop: these are the coroutine's and the provider's.
  | client {d : Daemon sch} {a : WsEvent} {c : CommonWsSession} (step : WsStep lib d.client a c)
      (next : ∀ m, a.message = some m → d.server.wsSent[d.client.wsGot.length]? = some m) :
      DaemonStep lib sch d (.client a) { d with client := c }
  | server {d : Daemon sch} {a : WsEvent} {c : CommonWsSession} (step : WsStep lib d.server a c)
      (next : ∀ m, a.message = some m → d.client.wsSent[d.server.wsGot.length]? = some m)
      (own : ¬ a.dispatched) :
      DaemonStep lib sch d (.server a) { d with server := c }
  | session {d : Daemon sch} {e : LocalEvent sch} {q : Server localEffects Exn LocalEnv}
      {h : Handoff} (run : (localSession sch).step d.session e q)
      (io : Streams sch d.handoff e h) :
      DaemonStep lib sch d (.session e) (d.called e q h)
  | providerPop {d : Daemon sch} {f : Ac.Frame} {rest : List Ac.Frame} (own : d.attached = true)
      (due : d.server.writeStream.buf = f :: rest) :
      DaemonStep lib sch d (.providerPop f)
        { d with
          server := { d.server with writeStream := d.server.writeStream.pop f rest due }
          providerRead := d.providerRead ++ [f] }
  | providerPush {d : Daemon sch} {f : Ac.Frame} (own : d.attached = true)
      (live : d.server.readStream.closed = false) (room : ¬ d.server.readStream.full) :
      DaemonStep lib sch d (.providerPush f)
        { d with
          server := { d.server with readStream := d.server.readStream.push f }
          providerWrote := d.providerWrote ++ [f] }
  -- the streams end with the coroutine, or with the provider that has taken them
  | drop {d : Daemon sch} (own : d.attached = true ∨ d.session.prog.Ended ∧
      d.session.prog ≠ .ret true) :
      DaemonStep lib sch d .drop { d with server := d.server.wsClosed }

def daemon (lib : DictLib) (sch : SchemaLib) : System (Daemon sch) (DaemonEvent sch) :=
  ⟨DaemonOpened lib sch, DaemonStep lib sch⟩

variable {d d' : Daemon sch} {e : LocalEvent sch} {tr : List (DaemonEvent sch)}

def Daemon.tunnel (d : Daemon sch) : Tunnel := ⟨d.client, d.server⟩

def DaemonEvent.tunnelled : DaemonEvent sch → Option TunnelEvent
  | .client a => some (.client a)
  | .server a => some (.server a)
  | .session (.request (.frame f)) => some (.server (.pop f))
  | .session (.call (.push f) .ok) => some (.server (.push f))
  | .session (.call (.attach _) (.error _)) => some (.server .drop)
  | .session _ => none
  | .providerPop f => some (.server (.pop f))
  | .providerPush f => some (.server (.push f))
  | .drop => some (.server .drop)

theorem session_tunnelled {h : Handoff} {s : Server localEffects Exn LocalEnv}
    (io : Streams sch d.handoff e h) :
    (tunnel lib).Follows (DaemonEvent.session e).tunnelled d.tunnel
      fun t => t = (d.called e s h).tunnel := by
  cases io with
  | polled due => exact ⟨_, .server (.pop due) nofun, rfl⟩
  | pushed live room => exact ⟨_, .server (.push live room) nofun, rfl⟩
  | refused => exact ⟨_, .server .drop nofun, rfl⟩
  | pollClosed | pollDetached | pushClosed | pushDetached | attached | connect | aioPush | aioPoll
  | detach => exact rfl

def daemonTunnel (lib : DictLib) (sch : SchemaLib) :
    Simulation (daemon lib sch) (Acord.tunnel lib) where
  rel _ d t := t = d.tunnel
  obs := DaemonEvent.tunnelled
  start := by
    intro d hd
    cases hd with
    | waiting client => exact ⟨_, .mk client (unused_create _ _), rfl⟩
    | greeted client => exact ⟨_, .mk client unused_greeting, rfl⟩
  step := by
    rintro tr d a d' _ _ rfl hs
    cases hs with
    | client step next => exact ⟨_, .client step next, rfl⟩
    | server step next => exact ⟨_, .server step next, rfl⟩
    | session run io => exact session_tunnelled io
    | providerPop own due => exact ⟨_, .server (.pop due) nofun, rfl⟩
    | providerPush own live room => exact ⟨_, .server (.push live room) nofun, rfl⟩
    | drop => exact ⟨_, .server .drop nofun, rfl⟩

theorem daemon_links (h : (daemon lib sch).Run tr d) :
    Link lib d.client d.server ∧ Link lib d.server d.client := by
  obtain ⟨t, ht, rfl⟩ := (daemonTunnel lib sch).run h
  exact tunnel_links ht

/-! The server's side by itself. -/

def Daemon.serverSide (d : Daemon sch) : ServerSide sch :=
  ⟨d.server, d.session, d.attached, d.log, d.providerRead, d.providerWrote⟩

def DaemonEvent.served : DaemonEvent sch → Option (ServerEvent sch)
  | .client _ => none
  | .server a => some (.server a)
  | .session e => some (.session e)
  | .providerPop f => some (.providerPop f)
  | .providerPush f => some (.providerPush f)
  | .drop => some .drop

theorem DaemonStep.served {a : DaemonEvent sch} (hs : DaemonStep lib sch d a d') :
    (Acord.serverSide lib sch (lit "/cbor")).Follows a.served d.serverSide
      fun t => t = d'.serverSide := by
  cases hs with
  | client => exact rfl
  | server step _ own => exact ⟨_, .server step own, rfl⟩
  | session run io => exact ⟨_, .session run io, rfl⟩
  | providerPop own due => exact ⟨_, .providerPop own due, rfl⟩
  | providerPush own live room => exact ⟨_, .providerPush own live room, rfl⟩
  | drop own => exact ⟨_, .drop own, rfl⟩

def daemonServer (lib : DictLib) (sch : SchemaLib) :
    Simulation (daemon lib sch) (Acord.serverSide lib sch (lit "/cbor")) where
  rel _ d t := t = d.serverSide
  obs := DaemonEvent.served
  start := by
    intro d hd
    cases hd with
    | waiting => exact ⟨_, .waiting, rfl⟩
    | greeted => exact ⟨_, .greeted, rfl⟩
  step := by
    rintro tr d a d' _ _ rfl hs
    exact hs.served

theorem daemon_server (h : (daemon lib sch).Run tr d) :
    (Acord.serverSide lib sch (lit "/cbor")).Run (tr.filterMap DaemonEvent.served)
      d.serverSide := by
  obtain ⟨t, ht, rfl⟩ := (daemonServer lib sch).run h
  exact ht

theorem DaemonStep.server_step {a : DaemonEvent sch} (hs : DaemonStep lib sch d a d') :
    d'.server = d.server ∨ ∃ b, WsStep lib d.server b d'.server := by
  have hserved := hs.served
  unfold System.Follows at hserved
  split at hserved
  · exact .inl (congrArg ServerSide.server hserved).symm
  · obtain ⟨t, step, rfl⟩ := hserved
    exact step.pumped

end Acord
