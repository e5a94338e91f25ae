import Nsl.Rust.Net

/-! # Listen addresses

  `proxy.listen` is an address and a port, or a port alone for all IPv4
  addresses.
-/

open Rust

namespace Nsl

def parse_listen (raw : Str) : Except Str (IpAddr × UInt16) :=
  let listen := trim raw
  match listen with
  | [] => .error "empty listen address".toList
  | ':' :: port =>
    match parse_u16 port with
    | some port => .ok (.V4 .UNSPECIFIED, port)
    | none => .error ("invalid port: ".toList ++ parse_int_error 65535 port)
  | _ =>
    match parse_socket_addr listen with
    | some addr => .ok addr
    | none => .error "expected HOST:PORT or :PORT: invalid socket address syntax".toList

end Nsl
