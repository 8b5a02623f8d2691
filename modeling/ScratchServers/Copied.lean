import ScratchServers.HandleVars
import ScratchServers.KeyPem
import ScratchServers.Script

/-! `copied.c`: a key pair goes out of one provider as PEM and comes back into
another one. Every call that fails jumps to the label `bad`, and the clean-up there
is the one at the end of the program. -/

namespace ScratchServers

inductive CspResource where
  | provider
  | key
  | block
  deriving DecidableEq

inductive CopiedVar where
  | hProv
  | hPrivateKey
  | hPublicKey
  | pKeyInfo
  | pPrivKeyBLOB
  | pDER
  | pPEM
  | pPubKeyBLOB
  deriving DecidableEq

def CopiedVar.kind : CopiedVar → CspResource
  | .hProv => .provider
  | .hPrivateKey | .hPublicKey => .key
  | _ => .block

/-- The answers of the system. `LocalAlloc` does not fail, and a handle or a block
has a value that no other one has while it is there. `message` is what `printf` makes
of the text that `FormatMessageA` gives for the call that has failed. -/
structure CspApi where
  acquireContext : Bool
  genKey : Bool
  exportPublicKeyInfo : TwoCall UInt8 0
  importPublicKeyInfo : List UInt8 → Bool
  exportPrivateKey : TwoCall UInt8 0
  encodeObject : List UInt8 → TwoCall UInt8 0
  binaryToString : List UInt8 → TwoCall Char 1
  acquireContextAgain : Bool
  stringToBinary : List Char → TwoCall UInt8 0
  decodeObject : List UInt8 → TwoCall UInt8 0
  importPrivateKey : List UInt8 → Nat → Bool
  exportPublicKey : TwoCall UInt8 0
  importPublicKey : List UInt8 → Bool
  exportPublicKeyInfoAgain : TwoCall UInt8 0
  importPublicKeyInfoAgain : List UInt8 → Bool
  message : List Char
  fresh : (t : HandleTable CspResource) → {h // t.Free h}

/-- `imported` are the blocks that `CryptImportKey` is given for the private key,
with the lengths that it is told. -/
structure CopiedState where
  handles : HandleVars CopiedVar CspResource
  printed : List (List Char)
  imported : List (Filled UInt8 0 × Nat)

/-- `hProv` is the only variable that is declared before the first jump. -/
def CopiedState.start : CopiedState :=
  ⟨⟨fun v => if v = .hProv then .null else .uninitialised, .empty, []⟩, [], []⟩

/-- The second call writes into a block that is allocated after the first one. -/
def TwoCall.into {S α : Type} {spare : Nat} (call : TwoCall α spare) (alloc : Script S Unit) :
    Script S (Filled α spare) :=
  match call with
  | .queryFails _ => .jump
  | .fillFails _ _ => do
    alloc
    .jump
  | .fills filled => do
    alloc
    return filled

/-- What `%s` prints of a text that its NUL ends. -/
def Filled.cString (f : Filled Char 1) : List Char :=
  (f.written ++ [nul]).takeWhile (· ≠ nul)

def onHandles (f : HandleVars CopiedVar CspResource → HandleVars CopiedVar CspResource) :
    Script CopiedState Unit :=
  .modify fun s => { s with handles := f s.handles }

def declare (v : CopiedVar) : Script CopiedState Unit :=
  onHandles (·.setNull v)

def release (v : CopiedVar) : Script CopiedState Unit :=
  onHandles (·.release CopiedVar.kind v)

section

variable (api : CspApi)

def issue (v : CopiedVar) : Script CopiedState Unit :=
  onHandles (·.issue CopiedVar.kind api.fresh v)

/-- `LocalFree` and `LocalAlloc` of one variable. -/
def reallocate (v : CopiedVar) : Script CopiedState Unit := do
  release v
  issue api v

/-- `main` up to the PEM that it prints. -/
def savePrivateKey : Script CopiedState (Filled Char 1) := do
  Script.require api.acquireContext
  issue api .hProv
  declare .hPrivateKey
  Script.require api.genKey
  issue api .hPrivateKey
  let info ← api.exportPublicKeyInfo.into (issue api .pKeyInfo)
  declare .hPublicKey
  Script.require (api.importPublicKeyInfo info.written)
  issue api .hPublicKey
  let blob ← api.exportPrivateKey.into (issue api .pPrivKeyBLOB)
  let der ← (api.encodeObject blob.written).into (issue api .pDER)
  let pem ← (api.binaryToString der.written).into (issue api .pPEM)
  Script.modify fun s => { s with printed := s.printed ++ [pem.cString] }
  return pem

/-- The variables keep the values of what is destroyed here. -/
def startFresh : Script CopiedState Unit := do
  release .hPublicKey
  release .hPrivateKey
  release .hProv
  Script.require api.acquireContextAgain
  issue api .hProv

def importPrivateKey (pem : Filled Char 1) : Script CopiedState Unit := do
  let back ← (api.stringToBinary pem.written).into (reallocate api .pDER)
  let key ← (api.decodeObject back.written).into (reallocate api .pPrivKeyBLOB)
  -- the length is `size`, which is still that of the DER
  Script.modify fun s => { s with imported := s.imported ++ [(key, back.written.length)] }
  Script.require (api.importPrivateKey key.written back.written.length)
  issue api .hPrivateKey

def importPublicKey : Script CopiedState Unit := do
  let pub ← api.exportPublicKey.into (issue api .pPubKeyBLOB)
  Script.require (api.importPublicKey pub.written)
  issue api .hPublicKey

/-- The public key of the imported pair once more, by way of its certificate form. -/
def importPublicKeyInfo : Script CopiedState Unit := do
  let info ← api.exportPublicKeyInfoAgain.into (reallocate api .pKeyInfo)
  declare .hPublicKey
  Script.require (api.importPublicKeyInfoAgain info.written)
  issue api .hPublicKey

def importKeys : Script CopiedState Unit := do
  let pem ← savePrivateKey api
  startFresh api
  importPrivateKey api pem
  importPublicKey api

/-- The order in which the clean-up releases the variables. -/
def cleanUp : List CopiedVar :=
  [.hPublicKey, .hPrivateKey, .hProv, .pPEM, .pDER, .pPrivKeyBLOB, .pPubKeyBLOB, .pKeyInfo]

def CopiedState.cleanedUp (s : CopiedState) : CopiedState :=
  { s with handles := s.handles.releaseAll CopiedVar.kind cleanUp }

/-- At the label the message is printed before the clean-up; its block is freed at
once. -/
def CopiedState.report (s : CopiedState) : CopiedState :=
  { s with printed := s.printed ++ [api.message] }

/-- The state that the program leaves, and what it returns. -/
def Copied.main : CopiedState × Int :=
  match (importKeys api >>= fun _ => importPublicKeyInfo api).run .start with
  | (s, some ()) => (s.cleanedUp, 0)
  | (s, none) => ((s.report api).cleanedUp, -1)

end

end ScratchServers
