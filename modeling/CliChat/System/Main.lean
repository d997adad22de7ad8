import CliChat.Common.Sodium
import CliChat.Common.Stoi

/-! @src server/src/main.cpp, client/src/main.cpp, server/src/server.cpp, client/src/client.cpp |
    name:main, SetupListener, CreateSession | scheme:arguments

    Both programs from their arguments to the call of `bind` or `connect`. The integer that `stoi`
    yields is checked in `main` and narrowed to 16 bits later: by the server when it assigns it to
    a `uint16_t`, by the client when it passes it to `htons`.

        argv ──stoi──▶ int ──check──▶ int ──mod 2^16──▶ uint16_t ──htons──▶ sin_port -/

namespace CliChat

open Framing

/-- What `bind` and `connect` read of a `sockaddr_in`. -/
structure SockAddr where
  sinPort : Bytes
  sinAddr : Bytes
  deriving DecidableEq

/-- `htons`, as the two bytes of its result. -/
def htons (port : UInt16) : Bytes := beEncode 2 port.toNat

/-- The port that the kernel takes from an address. -/
def SockAddr.port (addr : SockAddr) : ℕ := beDecode addr.sinPort

/-- How a program starts: it prints an error and exits with 1, an exception leaves `main`, or it
    calls `bind` or `connect`. -/
inductive Startup where
  | exits (output : Bytes)
  | throws
  | goesOn (addr : SockAddr)
  deriving DecidableEq

/-! ### The server -/

/-- The address that `SetupListener` binds, also when `socket` has failed. -/
def setupListener (port : UInt16) : SockAddr := ⟨htons port, [0, 0, 0, 0]⟩

/-- `Server server(port); server.Start();` where `sodiumInit` succeeds or not. -/
def startServer (sodiumInit : Bool) (port : UInt16) : Startup :=
  if sodiumInit then .goesOn (setupListener port)
  else .exits (ascii "Unable to initialize libsodium\n")

def invalidPort (arg : Bytes) : Bytes := ascii "Invalid port '" ++ arg ++ ascii "'\n"

/-- `main` of the server, for the arguments after the name of the program. -/
def serverMain (sodiumInit : Bool) : List Bytes → Startup
  | [] => startServer sodiumInit 8080
  | [arg] =>
    match stoi arg with
    | none => .throws
    | some stoiInt =>
      if stoiInt = 0 ∨ 65535 < stoiInt then .exits (invalidPort arg)
      else startServer sodiumInit (.ofInt stoiInt)
  | _ :: _ :: _ => .exits (ascii "Usage: server <port = 8080>\n")

/-! ### The client -/

/-- The address that `CreateSession` connects to, unless `socket` or `inet_pton` fails. -/
def createSession (socketOk : Bool) (inetPton : Bytes → Option Bytes) (ip : Bytes) (port : ℤ) :
    Option SockAddr :=
  if !socketOk then none
  else (inetPton ip).map fun addr => ⟨htons (.ofInt port), addr⟩

/-- `Client client(ip, port); client.Start();`. -/
def startClient (socketOk : Bool) (inetPton : Bytes → Option Bytes) (ip : Bytes) (port : ℤ) :
    Startup :=
  match createSession socketOk inetPton ip port with
  | none => .exits (ascii "Failed to create session, stopping\n")
  | some addr => .goesOn addr

def clientUsage : Bytes := ascii "Usage: client <ip> <port>"

/-- `main` of the client, for the arguments after the name of the program. -/
def clientMain (socketOk : Bool) (inetPton : Bytes → Option Bytes) : List Bytes → Startup
  | ip :: arg :: _ =>
    match stoi arg with
    | none => .throws
    | some stoiInt =>
      if stoiInt = 0 then .exits clientUsage
      else startClient socketOk inetPton ip stoiInt
  | _ => startClient socketOk inetPton (ascii "127.0.0.1") 8080

/-! ### Which port is used -/

theorem beDecode_htons (port : UInt16) : beDecode (htons port) = port.toNat := by
  have hlt : port.toNat < 256 ^ 2 := port.toNat_lt.trans_eq (by norm_num)
  rw [htons, beDecode_beEncode, Nat.mod_eq_of_lt hlt]

/-- Narrowing keeps the number modulo 2^16. -/
theorem toNat_ofInt (v : ℤ) : ((UInt16.ofInt v).toNat : ℤ) = v % 65536 := by
  rw [UInt16.ofInt, UInt16.toNat_ofNat']
  omega

section port

variable {arg : Bytes} {v : ℤ} {addr : SockAddr}

/-- Any other number than zero that is at most 65535 gets through. -/
theorem serverMain_goesOn (hv : stoi arg = some v) (hne : v ≠ 0) (hle : v ≤ 65535) :
    serverMain true [arg] = .goesOn (setupListener (.ofInt v)) := by
  simp only [serverMain, hv]
  rw [if_neg (by omega), startServer, if_pos rfl]

/-- The port that the server binds. -/
theorem serverMain_port (hv : stoi arg = some v) {sodiumInit : Bool}
    (h : serverMain sodiumInit [arg] = .goesOn addr) :
    v ≠ 0 ∧ v ≤ 65535 ∧ (addr.port : ℤ) = v % 65536 := by
  simp only [serverMain, hv] at h
  split_ifs at h with hcheck
  obtain ⟨hne, hle⟩ := not_or.mp hcheck
  refine ⟨hne, not_lt.mp hle, ?_⟩
  unfold startServer at h
  split_ifs at h
  cases h
  rw [SockAddr.port, setupListener, beDecode_htons, toNat_ofInt]

/-- The port that the client connects to. -/
theorem clientMain_port (hv : stoi arg = some v) {socketOk : Bool}
    {inetPton : Bytes → Option Bytes} {ip : Bytes} {rest : List Bytes}
    (h : clientMain socketOk inetPton (ip :: arg :: rest) = .goesOn addr) :
    v ≠ 0 ∧ (addr.port : ℤ) = v % 65536 := by
  simp only [clientMain, hv] at h
  split_ifs at h with hne
  refine ⟨hne, ?_⟩
  unfold startClient createSession at h
  split at h
  · cases h
  · rename_i hsession
    cases h
    split_ifs at hsession
    obtain ⟨a, -, rfl⟩ := Option.map_eq_some_iff.mp hsession
    rw [SockAddr.port, beDecode_htons, toNat_ofInt]

end port

/-! ### The port given -/

/-- The port used is the port given: whatever goes on uses the number `v` as its port, and a number
    that is not a port is rejected. -/
structure PortKept (rejection : Bytes) (v : ℤ) (r : Startup) : Prop where
  used : ∀ addr, r = .goesOn addr → (1 ≤ v ∧ v ≤ 65535) ∧ (addr.port : ℤ) = v
  rejected : ¬(1 ≤ v ∧ v ≤ 65535) → r = .exits rejection

section kept

variable {arg : Bytes} {v : ℤ}

/-- The server keeps the numbers that are not negative. -/
theorem server_portKept_iff (hv : stoi arg = some v) :
    (∀ sodiumInit, PortKept (invalidPort arg) v (serverMain sodiumInit [arg])) ↔ 0 ≤ v := by
  constructor
  · intro h
    by_contra hneg
    have hrun := serverMain_goesOn hv (by omega) (by omega)
    have hused := ((h true).used _ hrun).1
    omega
  · intro hnonneg sodiumInit
    refine ⟨fun addr hrun => ?_, fun hno => ?_⟩
    · obtain ⟨hne, hle, hport⟩ := serverMain_port hv hrun
      omega
    · simp only [serverMain, hv]
      rw [if_pos (by omega)]

/-- The client keeps the numbers that fit 16 bits. -/
theorem client_portKept_iff (hv : stoi arg = some v) :
    (∀ socketOk inetPton ip rest,
      PortKept clientUsage v (clientMain socketOk inetPton (ip :: arg :: rest))) ↔
        0 ≤ v ∧ v ≤ 65535 := by
  constructor
  · intro h
    by_contra hno
    have hrun : clientMain true some ([] :: arg :: []) = .goesOn ⟨htons (.ofInt v), []⟩ := by
      simp only [clientMain, hv]
      rw [if_neg (by omega)]
      rfl
    have hused := ((h true some [] []).used _ hrun).1
    omega
  · intro hrange socketOk inetPton ip rest
    refine ⟨fun addr hrun => ?_, fun hno => ?_⟩
    · obtain ⟨hne, hport⟩ := clientMain_port hv hrun
      omega
    · simp only [clientMain, hv]
      rw [if_pos (by omega)]

end kept

/-- EXACT: both programs keep their ports if and only if the number of the server is not negative and
    that of the client fits 16 bits. -/
theorem ports_kept_iff {serverArg clientArg : Bytes} {u v : ℤ} (hu : stoi serverArg = some u)
    (hv : stoi clientArg = some v) :
    ((∀ sodiumInit, PortKept (invalidPort serverArg) u (serverMain sodiumInit [serverArg])) ∧
      ∀ socketOk inetPton ip rest,
        PortKept clientUsage v (clientMain socketOk inetPton (ip :: clientArg :: rest))) ↔
      0 ≤ u ∧ 0 ≤ v ∧ v ≤ 65535 := by
  rw [server_portKept_iff hu, client_portKept_iff hv]

/-- The port 9000, for both. -/
theorem ports_kept_9000 :
    (∀ sodiumInit, PortKept (invalidPort (ascii "9000")) 9000
        (serverMain sodiumInit [ascii "9000"])) ∧
      ∀ socketOk inetPton ip rest,
        PortKept clientUsage 9000 (clientMain socketOk inetPton (ip :: ascii "9000" :: rest)) :=
  (ports_kept_iff (by decide +kernel) (by decide +kernel)).mpr (by decide)

/-- The server binds 65535 for -1, and the client connects to 4464 for 70000. -/
theorem ports_changed :
    (stoi (ascii "-1") = some (-1) ∧
      serverMain true [ascii "-1"] = .goesOn ⟨[255, 255], [0, 0, 0, 0]⟩ ∧
      ¬∀ sodiumInit, PortKept (invalidPort (ascii "-1")) (-1)
        (serverMain sodiumInit [ascii "-1"])) ∧
    stoi (ascii "70000") = some 70000 ∧
      clientMain true (fun _ => some [127, 0, 0, 1]) [ascii "127.0.0.1", ascii "70000"] =
        .goesOn ⟨[17, 112], [127, 0, 0, 1]⟩ ∧
      ¬∀ socketOk inetPton ip rest,
        PortKept clientUsage 70000 (clientMain socketOk inetPton (ip :: ascii "70000" :: rest)) := by
  have hserver : serverMain true [ascii "-1"] = .goesOn ⟨[255, 255], [0, 0, 0, 0]⟩ := by
    decide +kernel
  have hclient : clientMain true (fun _ => some [127, 0, 0, 1]) [ascii "127.0.0.1", ascii "70000"] =
      .goesOn ⟨[17, 112], [127, 0, 0, 1]⟩ := by decide +kernel
  refine ⟨⟨by decide +kernel, hserver, fun h => ?_⟩, by decide +kernel, hclient, fun h => ?_⟩
  · exact absurd ((h true).used _ hserver).1.1 (by decide)
  · exact absurd ((h true (fun _ => some [127, 0, 0, 1]) (ascii "127.0.0.1") []).used _ hclient).1.2
      (by decide)

/-- Every negative int makes the server bind the port that it is modulo 2^16. -/
theorem negative_port_binds {v : ℤ} (hrange : -2 ^ 31 ≤ v) (hneg : v < 0) :
    ∃ arg addr, stoi arg = some v ∧ serverMain true [arg] = .goesOn addr ∧
      (addr.port : ℤ) = v % 65536 := by
  obtain ⟨arg, hv⟩ := exists_stoi.mpr ⟨hrange, by omega⟩
  have hrun := serverMain_goesOn hv (by omega) (by omega)
  exact ⟨arg, _, hv, hrun, (serverMain_port hv hrun).2.2⟩

end CliChat
