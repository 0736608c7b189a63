import Mathlib

/-!
# Hashes and signatures

The cryptography of `stegos_crypto` as the rest of the model uses it.

* `Digest`: `Hash::digest`, the hash of a hashable value. Hashes are values of
  an abstract type; where two hashes are compared the model compares these
  values, so hashes are as good as collision free.
* `Signed`: a `pbc::Signature`, modelled as an ideal signature: the key that
  signed and what it signed. `pbc::sign_hash(h, skey)` is `⟨pkey, h⟩` for the
  public key `pkey` of `skey`, and `pbc::check_hash(h, sig, pkey)` holds
  exactly when `sig = ⟨pkey, h⟩`, so a signature cannot be forged.
-/

namespace Stegos

/-- `Hash::digest`: the hash of a value of a hashable type. -/
class Digest (α : Type) (H : outParam Type) where
  digest : α → H

/-- An ideal `pbc::Signature`: the public key of the signer and the signed data. -/
structure Signed (N α : Type) where
  pkey : N
  hash : α
  deriving DecidableEq, Repr

end Stegos
