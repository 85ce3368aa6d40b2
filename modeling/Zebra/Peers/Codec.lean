import Zebra.Lib.Bytes

namespace Zebra

open Lib

inductive Command where
  | version | verack | ping | pong | reject | addr | addrv2 | getaddr | block | getblocks | headers | getheaders | inv
  | getdata | notfound | tx | mempool | filterload | filteradd | filterclear
deriving DecidableEq

namespace Command

def name : Command → List Char
  | version => ['v', 'e', 'r', 's', 'i', 'o', 'n']
  | verack => ['v', 'e', 'r', 'a', 'c', 'k']
  | ping => ['p', 'i', 'n', 'g']
  | pong => ['p', 'o', 'n', 'g']
  | reject => ['r', 'e', 'j', 'e', 'c', 't']
  | addr => ['a', 'd', 'd', 'r']
  | addrv2 => ['a', 'd', 'd', 'r', 'v', '2']
  | getaddr => ['g', 'e', 't', 'a', 'd', 'd', 'r']
  | block => ['b', 'l', 'o', 'c', 'k']
  | getblocks => ['g', 'e', 't', 'b', 'l', 'o', 'c', 'k', 's']
  | headers => ['h', 'e', 'a', 'd', 'e', 'r', 's']
  | getheaders => ['g', 'e', 't', 'h', 'e', 'a', 'd', 'e', 'r', 's']
  | inv => ['i', 'n', 'v']
  | getdata => ['g', 'e', 't', 'd', 'a', 't', 'a']
  | notfound => ['n', 'o', 't', 'f', 'o', 'u', 'n', 'd']
  | tx => ['t', 'x']
  | mempool => ['m', 'e', 'm', 'p', 'o', 'o', 'l']
  | filterload => ['f', 'i', 'l', 't', 'e', 'r', 'l', 'o', 'a', 'd']
  | filteradd => ['f', 'i', 'l', 't', 'e', 'r', 'a', 'd', 'd']
  | filterclear => ['f', 'i', 'l', 't', 'e', 'r', 'c', 'l', 'e', 'a', 'r']

def bytes (c : Command) : Bytes := c.name.map (fun ch => .ofNat ch.toNat) ++ List.replicate (12 - c.name.length) 0

def all : List Command :=
  [version, verack, ping, pong, reject, addr, addrv2, getaddr, block, getblocks, headers, getheaders, inv, getdata, notfound,
    tx, mempool, filterload, filteradd, filterclear]

def ofBytes (command : Bytes) : Option Command := all.find? fun c => c.bytes = command

end Command

def headerLen : Nat := 24

structure MessageHeader where
  magic : Bytes
  command : Bytes
  bodyLen : Nat
  checksum : Bytes

def MessageHeader.read (header : Bytes) : MessageHeader where
  magic := header.take 4
  command := (header.drop 4).take 12
  bodyLen := Bytes.ofLE ((header.drop 16).take 4)
  checksum := (header.drop 20).take 4

inductive DecodeState where
  | head
  | body (bodyLen : Nat) (command checksum : Bytes)

/-- An error of the decoder itself, or of the reader of a body. -/
inductive DecodeError (ε : Type) where
  | parse (message : String)
  | reader (e : ε)
deriving DecidableEq

/-- The magic of the network, the length limit, the checksum, and the reader of each kind of body,
which only depends on the bytes of the body. -/
structure Codec (μ ε : Type) where
  magic : Bytes
  maxLen : Nat
  checksum : Bytes → Bytes
  readBody : Command → Bytes → Except ε μ

namespace Codec

variable {μ ε : Type} (c : Codec μ ε)

/-- The message of a complete body. There is none if the command is unknown. -/
def readCommand (command checksum body : Bytes) : Except (DecodeError ε) (Option μ) :=
  if checksum ≠ c.checksum body then .error (.parse "supplied message checksum does not match computed checksum")
  else
    match Command.ofBytes command with
    | none => .ok none
    | some command =>
      match c.readBody command body with
      | .ok m => .ok (some m)
      | .error e => .error (.reader e)

def decodeBody (bodyLen : Nat) (command checksum : Bytes) (src : Bytes) :
    Except (DecodeError ε) (Option μ) × DecodeState × Bytes :=
  if src.length < bodyLen then (.ok none, .body bodyLen command checksum, src)
  else (c.readCommand command checksum (src.take bodyLen), .head, src.drop bodyLen)

def decode (state : DecodeState) (src : Bytes) : Except (DecodeError ε) (Option μ) × DecodeState × Bytes :=
  match state with
  | .body bodyLen command checksum => c.decodeBody bodyLen command checksum src
  | .head =>
    if src.length < headerLen then (.ok none, .head, src)
    else
      let header := MessageHeader.read (src.take headerLen)
      let rest := src.drop headerLen
      if header.magic ≠ c.magic then (.error (.parse "supplied magic did not meet expectations"), .head, rest)
      else if c.maxLen < header.bodyLen then (.error (.parse "body length exceeded maximum size"), .head, rest)
      else c.decodeBody header.bodyLen header.command header.checksum rest

end Codec

end Zebra
