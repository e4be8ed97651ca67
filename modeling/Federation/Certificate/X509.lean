import Federation.Certificate.Der

/-!
# X.509 certificates

`publicKey?` reads a whole certificate and returns the bytes of its public key with the algorithm
that the key is for.  What the certificate says besides must be well formed but is not looked at;
bytes behind the end of a sequence are ignored.
-/

namespace Federation.X509

open Der

def algorithm : Read Unit :=
  sequence fun bs => do
    let (_, bs) ← identifier bs
    if bs.isEmpty then some ((), bs)
    else
      let (_, bs) ← element bs
      some ((), bs)

/-- the version of the format, a number of 32 bits, which may be left out -/
def version : Read Unit := fun bs => do
  let (v, rest) ← tagged? 0 bs
  match v with
  | none => some ((), rest)
  | some c =>
    let (n, _) ← natural c
    if n < 4294967296 then some ((), rest) else none

def serial : Read Unit := fun bs => do
  let (_, rest) ← universal 2 bs
  some ((), rest)

/-- the name of an issuer or a subject, whose parts are not looked at -/
def name : Read Unit := sequence fun bs => some ((), bs)

def validity : Read Unit :=
  sequence fun bs => do
    let (_, bs) ← time bs
    time bs

def keyInfo : Read Bytes := fun bs => do
  let (contents, rest) ← universal 16 bs
  let header := bs.length - rest.length - contents.contents.length
  let (_, inner) ← algorithm contents.contents
  let (_, inner) ← bits inner
  some (bs.take (header + (contents.contents.length - inner.length)), rest)

def uniqueId (number : Nat) : Read Unit := fun bs => do
  let (c, rest) ← tagged? number bs
  match c with
  | none => some ((), rest)
  | some c => if isBits c then some ((), rest) else none

def extension : Read Unit :=
  sequence fun bs => do
    let (_, bs) ← identifier bs
    let bs := match primitive 1 bs with
      | some (_, rest) => rest
      | none => bs
    let (_, bs) ← primitive 4 bs
    some ((), bs)

/-- extensions up to the end; `n` bounds their number -/
def extensions : Nat → Bytes → Option Unit
  | 0, bs => if bs.isEmpty then some () else none
  | n + 1, bs =>
    if bs.isEmpty then some ()
    else do
      let (_, rest) ← extension bs
      extensions n rest

def extensionPart : Read Unit := fun bs =>
  if bs.isEmpty then some ((), bs)
  else do
    let (t, inner) ← tag bs
    let (_, inner) ← length inner
    if t.number ≠ 3 then none
    else
      sequence (fun c => do
        extensions c.length c
        some ((), [])) inner

/-- the signed part -/
def body : Read Bytes :=
  sequence fun bs => do
    let (_, bs) ← version bs
    let (_, bs) ← serial bs
    let (_, bs) ← algorithm bs
    let (_, bs) ← name bs
    let (_, bs) ← validity bs
    let (_, bs) ← name bs
    let (key, bs) ← keyInfo bs
    let (_, bs) ← uniqueId 1 bs
    let (_, bs) ← uniqueId 2 bs
    let (_, bs) ← extensionPart bs
    some (key, bs)

def certificate : Read Bytes :=
  sequence fun bs => do
    let (key, bs) ← body bs
    let (_, bs) ← algorithm bs
    let (_, bs) ← bits bs
    some (key, bs)

def publicKey? (der : Bytes) : Option Bytes := (certificate der).map (·.1)

end Federation.X509
