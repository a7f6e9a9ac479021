import T4P4SRuntime.Server

namespace L2fwd

open Device P4Config P4v1

def dmac : Table :=
  { preamble := { id := 33610402, name := "dmac" }
    matchFields := [{ id := 1, name := "ethernet.dstAddr", bitwidth := 48 }]
    actionRefs := [16811908, 16792690, 16800567] }

def noAction : P4Config.Action :=
  { preamble := { id := 16800567, name := "NoAction" }, params := [] }

def forward : P4Config.Action :=
  { preamble := { id := 16811908, name := "forward" }
    params := [{ id := 1, name := "port", bitwidth := 9 }] }

def bcast : P4Config.Action :=
  { preamble := { id := 16792690, name := "bcast" }, params := [] }

def p4info : P4Info :=
  { tables := [dmac], actions := [noAction, forward, bcast], counters := [], digests := [] }

def pushOf (p4info : P4Info) : SetForwardingPipelineConfigRequest :=
  { deviceId := 1
    action := .verifyAndCommit
    config := { p4info := p4info, p4DeviceConfig := [], cookie := none } }

def serverAfter (p4info : P4Info) : Server :=
  match (serve (Server.init 1) (.setForwardingPipelineConfig (pushOf p4info) Disk.reliable)).out with
  | .ok (server, _) => server
  | .error _ => Server.init 1

theorem reachable_of_served {p4info : P4Info} {server : Server}
    (h : serve (Server.init 1) (.setForwardingPipelineConfig (pushOf p4info) Disk.reliable) =
      ⟨[], .ok (server, .setForwardingPipelineConfig (Status.make .ok "ok"))⟩) :
    Reachable 1 server (some p4info) :=
  Reachable.step Reachable.init h

def server : Server := serverAfter p4info

theorem served : serve (Server.init 1) (.setForwardingPipelineConfig (pushOf p4info) Disk.reliable) =
    ⟨[], .ok (server, .setForwardingPipelineConfig (Status.make .ok "ok"))⟩ := rfl

theorem reachable_server : Reachable 1 server (some p4info) := reachable_of_served served

end L2fwd
