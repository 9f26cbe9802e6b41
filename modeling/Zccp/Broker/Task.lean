import Zccp.Broker.Runs
import Zccp.Lib.Decimal

/-!
# `Zccp/Broker/Task.lean` — the server as an actor

The rest of `zccp_server_engine.inc`: the server is a thread that polls two sockets and a clock, the
router that the clients talk to (`Zccp/Broker/Reactor.lean`) and the pipe on which the caller
configures it. Its configuration is a tree, loaded from a file, set path by path, and loaded again
when the file changes; two things are read from it, the timeout of the sessions and whether to log.

What comes from outside is the environment of a callback: the clock, what `zsock_bind` and the file
system answer. So nothing is assumed of any of them from one callback to the next. Of `zconfig` no
more is assumed than that a new tree has no values.

A tree is known by its address, since the application has a pointer to it (`server_t.config`), which
not every path that replaces the tree moves along.

The monitor's timer is not among the server's timers, which are those of the sessions: it may go off
whenever it likes. Left out are the log stream, the log prefix and the seed of the random numbers.
-/

set_option autoImplicit false

namespace Zccp.Broker

open Lib

/-! ## The configuration tree -/

/-- What the server uses of `zconfig`. -/
structure Zconfig where
  Tree : Type
  /-- `zconfig_new ("root", NULL)` -/
  new : Tree
  /-- `zconfig_resolve`; `none` is where the caller's default is returned. -/
  resolve : Tree → CStr → Option CStr
  put : Tree → CStr → CStr → Tree
  locate : Tree → CStr → Option Tree
  /-- `zconfig_child` and what `zconfig_next` finds from there. -/
  children : Tree → List Tree
  name : Tree → CStr
  value : Tree → Option CStr
  filename : Tree → Option CStr
  resolve_new : ∀ path, resolve new path = none

/-- What answers a callback from outside. -/
structure Env (cfg : Zconfig) where
  now : Int
  /-- When a timer goes off that `zloop_timer` arms now, with a delay. -/
  after : Nat → Int
  zsockBind : CStr → Int
  zconfigLoad : CStr → Option cfg.Tree
  zconfigHasChanged : cfg.Tree → Bool
  zconfigReload : cfg.Tree → Option cfg.Tree

/-- What the server says to whoever runs it. -/
inductive Report
  | notice (value : Option CStr)
  | couldNotBind (endpoint : CStr)
  | cannotLoad (file : CStr)
  | deprecated (path : CStr)
  | reloaded (file : Option CStr)
deriving DecidableEq

private def lit (s : String) : CStr := .ofBytes s.toUTF8.toList

def pathVerbose : CStr := lit "server/verbose"
def pathTimeout : CStr := lit "server/timeout"
def pathAnimate : CStr := lit "server/animate"
def pathServer : CStr := lit "zccp_server"
def nameEcho : CStr := lit "echo"
def nameBind : CStr := lit "bind"
def pathEndpoint : CStr := lit "endpoint"

/-! ## `s_server_t` -/

/-- A message of the caller, as far as the server pops it. An argument that is not there is `none`. -/
inductive ApiMessage
  | verbose
  | term
  | bind (endpoint : Option CStr)
  | port
  | configure (file : Option CStr)
  | set (path value : Option CStr)
  | other (method : CStr)
deriving DecidableEq

/-- A command has the arguments that its method pops. -/
def ApiMessage.Complete : ApiMessage → Prop
  | .bind none | .configure none | .set none _ | .set _ none => False
  | _ => True

/-- The rest of `s_server_t`. -/
structure SServer (cfg : Zconfig) where
  server : Server
  port : Int
  config : cfg.Tree
  /-- Where `config` is. -/
  configAt : Ref
  /-- Where the application's `server.config` points. -/
  serverConfig : Ref
  timeout : Nat
  /-- When each armed timer goes off. -/
  due : Nat → Int
  /-- What has been sent to the caller. -/
  pipe : List (List CStr)
  reports : List Report

namespace SServer

variable {cfg : Zconfig}

def report (r : Report) (self : SServer cfg) : SServer cfg :=
  { self with reports := self.reports ++ [r] }

/-- An `int` in a `size_t`. -/
def sizeT (i : Int) : Nat := (i % 2 ^ 64).toNat

/-- Whether the configuration wants the server to log. -/
def configVerbose (config : cfg.Tree) : Bool :=
  atoi ((cfg.resolve config pathVerbose).getD (lit "0")).bytes ≠ 0

/-- The timeout that the configuration has, in milliseconds. -/
def configTimeout (config : cfg.Tree) : Nat :=
  sizeT (atoi ((cfg.resolve config pathTimeout).getD (lit "60000")).bytes)

/-- `s_server_config_self` -/
def sServerConfigSelf (self : SServer cfg) : SServer cfg := { self with
  server := { self.server with verbose := self.server.verbose || configVerbose self.config }
  timeout := configTimeout self.config }

/-- `s_server_new` -/
def sServerNew : SServer cfg := sServerConfigSelf {
  server := .new false
  port := 0
  config := cfg.new
  configAt := 0
  serverConfig := 0
  timeout := 0
  due := fun _ => 0
  pipe := []
  reports := [] }

/-- Put another tree in the place of the present one. -/
def setConfig (config : cfg.Tree) (self : SServer cfg) : SServer cfg :=
  { self with config := config, configAt := self.configAt + 1 }

/-- `self->server.config = self->config` -/
def shareConfig (self : SServer cfg) : SServer cfg := { self with serverConfig := self.configAt }

/-- What `s_server_apply_config` does at a section of the tree. -/
def applySection (env : Env cfg) (self : SServer cfg) (section' : cfg.Tree) : SServer cfg :=
  if cfg.name section' = nameEcho then self.report (.notice (cfg.value section'))
  else if cfg.name section' = nameBind then
    let endpoint := (cfg.resolve section' pathEndpoint).getD (lit "?")
    if env.zsockBind endpoint = -1 then self.report (.couldNotBind endpoint) else self
  else self

/-- `s_server_apply_config`. The port of a `bind` section is not kept. -/
def sServerApplyConfig (env : Env cfg) (self : SServer cfg) : SServer cfg :=
  sServerConfigSelf (((cfg.locate self.config pathServer).elim [] cfg.children).foldl
    (applySection env) self)

/-- `s_server_api_message`, with its return code. `none` is a `NULL` argument passed on. When the
file cannot be loaded, neither the settings nor the application's pointer follow the new tree. -/
def sServerApiMessage (env : Env cfg) (message : ApiMessage) (self : SServer cfg) :
    Option (SServer cfg × Int) :=
  match message with
  | .verbose => some ({ self with server := { self.server with verbose := true } }, 0)
  | .term => some (self, -1)
  | .bind none => none
  | .bind (some endpoint) =>
    let self := { self with port := env.zsockBind endpoint }
    some (if self.port = -1 then self.report (.couldNotBind endpoint) else self, 0)
  | .port => some ({ self with pipe := self.pipe ++ [[lit "PORT", .ofBytes (decimal self.port)]] }, 0)
  | .configure none => none
  | .configure (some file) =>
    match env.zconfigLoad file with
    | some config => some ((sServerApplyConfig env (self.setConfig config)).shareConfig, 0)
    | none => some ((self.report (.cannotLoad file)).setConfig cfg.new, 0)
  | .set (some path) (some value) =>
    let self := { self with config := cfg.put self.config path value }
    let self := if path = pathAnimate then
        { self.report (.deprecated path) with
          server := { self.server with verbose := decide (atoi value.bytes ≠ 0) } }
      else self
    some (sServerConfigSelf self, 0)
  | .set _ _ => none
  -- `server_method` has no methods
  | .other _ => some (self, 0)

/-- `s_watch_server_config` -/
def sWatchServerConfig (env : Env cfg) (self : SServer cfg) : SServer cfg :=
  if env.zconfigHasChanged self.config then
    match env.zconfigReload self.config with
    | some config =>
      let self := (sServerConfigSelf (self.setConfig config)).shareConfig
      self.report (.reloaded (cfg.filename self.config))
    | none => self
  else self

/-! ## The reactor -/

/-- What wakes the reactor: a client's message or timer, the pipe, or the monitor's timer. -/
inductive Wake
  | client (input : Input)
  | command (message : ApiMessage)
  | monitor
deriving DecidableEq

/-- A command comes with its arguments. -/
def Wake.Complete : Wake → Prop
  | .command message => message.Complete
  | _ => True

/-- Whether an input can happen now: a session's timer does not go off before it is due. -/
def mayHappen (env : Env cfg) (self : SServer cfg) : Input → Bool
  | .message _ _ => true
  | .expiry routingId => (self.server.core.lookup routingId).elim false fun σ =>
      self.due σ.expiryTimer ≤ env.now

/-- A client's callback. The timers that it arms go off when the timeout has passed. -/
def clientCallback (z : Czmq) (env : Env cfg) (input : Input) (self : SServer cfg) :
    Option (SServer cfg × Int) := do
  let (server, rc) ← handle z input self.server
  some ({ self with
    server := server
    due := fun id =>
      if self.server.lastTimerId < id ∧ id ≤ server.lastTimerId then env.after self.timeout
      else self.due id }, rc)

/-- One callback, with its return code. -/
def react (z : Czmq) (env : Env cfg) (self : SServer cfg) : Wake → Option (SServer cfg × Int)
  | .client input =>
    if self.mayHappen env input then self.clientCallback z env input else some (self, 0)
  | .command message => self.sServerApiMessage env message
  | .monitor => some (self.sWatchServerConfig env, 0)

/-- `zloop_start`: one callback after the other until one returns -1, or an interrupt. -/
def zloopStart (z : Czmq) : List (Env cfg × Wake) → SServer cfg → Option (SServer cfg)
  | [], self => some self
  | (env, wake) :: wakes, self => do
    let (self, rc) ← self.react z env wake
    if rc = -1 then some self else zloopStart z wakes self

end SServer

/-! ## The end -/

/-- `zhash_destroy` of the clients. It goes through the hash in an order of its own, and frees each
client with `s_client_free`. -/
def zhashDestroy (fuel : Nat) (order : List CStr) (s : Server) : Option Server :=
  order.foldlM (fun s hashkey => zhashDelete fuel hashkey s) s

/-- `zlist_destroy` of the patterns. -/
def serverTerminate (s : Server) : Server := { s with patterns := .empty }

/-- `s_server_destroy`; the loop takes its timers with it. -/
def sServerDestroy (order : List CStr) (s : Server) : Option Server := do
  let s ← zhashDestroy s.fuel order s
  some { serverTerminate s with timers := [] }

/-- `zccp_server`: the reactor, and the end of the server when it has ended. -/
def zccpServer {cfg : Zconfig} (z : Czmq) (wakes : List (Env cfg × SServer.Wake))
    (order : List CStr) : Option Server := do
  let self ← SServer.zloopStart z wakes SServer.sServerNew
  sServerDestroy order self.server

/-- An order in which the hash of clients can be gone through. -/
structure Lists (order : List CStr) (clients : CStr → Option Ref) : Prop where
  nodup : order.Nodup
  mem : ∀ hashkey, hashkey ∈ order ↔ (clients hashkey).isSome

end Zccp.Broker
