import Nsl.Config.Listen
import Nsl.Proxy.Startup

/-! # Recognising a running daemon

  A daemon listens where its configuration says. Whoever wants to know whether
  it runs asks at 127.0.0.1 and the port of the configuration, whatever the
  address there is.

  Whether IPv6 sockets take IPv4 connections, and which port is chosen for port
  0, is up to the system.

  - `recognised_iff`: the addresses at which a daemon is found.
-/

open Rust

namespace Nsl

/-- What the system does with the sockets. -/
structure Net where
  /-- IPv6 sockets take IPv4 connections -/
  dual_stack : Bool
  /-- the port for port 0 -/
  chosen : UInt16
  chosen_ne_zero : chosen ≠ 0

/-- A listening socket. -/
structure Listener where
  ip : IpAddr
  port : UInt16

/-- The listener that `start_proxy` binds. -/
def Net.bind (net : Net) (proxy_bind : IpAddr) (proxy_port : UInt16) : Listener where
  ip := proxy_bind
  port := if proxy_port = 0 then net.chosen else proxy_port

/-- A connection to an IPv4 address of the machine comes to this listener. -/
def Net.accepts (net : Net) (l : Listener) (ip : Ipv4Addr) (port : UInt16) : Bool :=
  l.port == port &&
    match l.ip with
    | .V4 bound => bound == ip || bound == .UNSPECIFIED
    | .V6 bound =>
      net.dual_stack && (bound == .UNSPECIFIED || bound == ip.to_ipv6_mapped ||
        bound == Ipv4Addr.UNSPECIFIED.to_ipv6_mapped)

/-- Check if a proxy is running: one of the daemons that serve answers a request
    to 127.0.0.1. -/
def is_proxy_running (net : Net) (daemons : List Listener) (port : UInt16) : Bool :=
  daemons.any fun l => net.accepts l .LOCALHOST port

/-- A daemon that serves is found by `ensure_proxy_running`, before it spawns
    another one and after. -/
structure Recognised (net : Net) (proxy_bind : IpAddr) (proxy_port : UInt16) : Prop where
  accepted : net.accepts (net.bind proxy_bind proxy_port) .LOCALHOST proxy_port = true
  found : ∀ state_dir daemons, net.bind proxy_bind proxy_port ∈ daemons →
    Startup.next state_dir .waiting (.probe (is_proxy_running net daemons proxy_port)) =
      some (.returned (.ok false))
  awaited : ∀ state_dir daemons left, net.bind proxy_bind proxy_port ∈ daemons →
    Startup.next state_dir (.spawned (left + 1))
        (.wait (is_proxy_running net daemons proxy_port)) =
      some (.returned (.ok true))

/-- 127.0.0.1, and the addresses that stand for it among others. -/
def Loopback (net : Net) (ip : IpAddr) : Prop :=
  ip = .V4 .LOCALHOST ∨ ip = .V4 .UNSPECIFIED ∨
    net.dual_stack = true ∧ (ip = .V6 .UNSPECIFIED ∨
      ip = .V6 Ipv4Addr.LOCALHOST.to_ipv6_mapped ∨ ip = .V6 Ipv4Addr.UNSPECIFIED.to_ipv6_mapped)

/-- What accepts at 127.0.0.1: port 0 is the port of no listener. -/
theorem accepts_localhost_iff (net : Net) (proxy_bind : IpAddr) (proxy_port : UInt16) :
    net.accepts (net.bind proxy_bind proxy_port) .LOCALHOST proxy_port = true ↔
      proxy_port ≠ 0 ∧ Loopback net proxy_bind := by
  have hport : (net.bind proxy_bind proxy_port).port = proxy_port ↔ proxy_port ≠ 0 := by
    unfold Net.bind
    by_cases hzero : proxy_port = 0
    · simp [hzero, net.chosen_ne_zero]
    · simp [hzero]
  unfold Net.accepts Loopback
  rw [Bool.and_eq_true, beq_iff_eq, hport]
  refine and_congr_right fun _ => ?_
  cases proxy_bind <;> simp [Net.bind, or_assoc]

/-- **A daemon is recognised** exactly when its port is not 0 and it listens at
    127.0.0.1, alone or among others. -/
theorem recognised_iff (net : Net) (proxy_bind : IpAddr) (proxy_port : UInt16) :
    Recognised net proxy_bind proxy_port ↔ proxy_port ≠ 0 ∧ Loopback net proxy_bind := by
  rw [← accepts_localhost_iff]
  refine ⟨fun h => h.accepted, fun haccepts => ?_⟩
  have hrunning : ∀ daemons, net.bind proxy_bind proxy_port ∈ daemons →
      is_proxy_running net daemons proxy_port = true :=
    fun daemons hmem => List.any_eq_true.mpr ⟨_, hmem, haccepts⟩
  refine ⟨haccepts, ?_, ?_⟩
  · intro state_dir daemons hmem
    rw [hrunning daemons hmem]
    rfl
  · intro state_dir daemons left hmem
    rw [hrunning daemons hmem]
    rfl

/-- A system with IPv4 and IPv6. -/
def linux_net : Net := ⟨true, 40000, by decide⟩

/-- The daemon at this address is not found: a second one is spawned, and the
    start is reported as failed. -/
def Missed (net : Net) (ip : IpAddr) (port : UInt16) : Prop :=
  let running := is_proxy_running net [net.bind ip port] port
  Startup.next "/nsl".toList .waiting (.probe running) = some .starting ∧
  Startup.next "/nsl".toList (.spawned 1) (.wait running) =
    some (.returned (.error "proxy failed to start. Check logs at /nsl/proxy.log".toList)) ∧
  ¬ Recognised net ip port

/-- What is not reached is missed. -/
theorem missed_of_not_running {net : Net} {ip : IpAddr} {port : UInt16}
    (h : is_proxy_running net [net.bind ip port] port = false) : Missed net ip port := by
  refine ⟨by rw [h]; rfl, by rw [h]; rfl, ?_⟩
  intro hrecognised
  have haccepted := hrecognised.accepted
  simp only [is_proxy_running, List.any_cons, List.any_nil, Bool.or_false] at h
  rw [haccepted] at h
  cases h

/-- A daemon at an address of the network, and one at a port of the system's
    choice. -/
theorem daemon_not_recognised :
    parse_listen "192.168.1.5:3355".toList = .ok (.V4 ⟨192, 168, 1, 5⟩, 3355) ∧
    Missed linux_net (.V4 ⟨192, 168, 1, 5⟩) 3355 ∧
    parse_listen "127.0.0.1:0".toList = .ok (.V4 .LOCALHOST, 0) ∧
    Missed linux_net (.V4 .LOCALHOST) 0 := by
  refine ⟨by decide, missed_of_not_running ?_, by decide, missed_of_not_running ?_⟩
  · decide
  · decide

end Nsl
