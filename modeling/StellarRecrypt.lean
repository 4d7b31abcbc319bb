import StellarRecrypt.Lib.ByteString
import StellarRecrypt.Lib.Pratt
import StellarRecrypt.Lib.EdwardsProjective
import StellarRecrypt.Constants
import StellarRecrypt.Error
import StellarRecrypt.Lib.Delimited
import StellarRecrypt.Lib.PrimeOrder
import StellarRecrypt.Lib.Reencryption
import StellarRecrypt.Convert
import StellarRecrypt.Base32
import StellarRecrypt.Strkey
import StellarRecrypt.Kdf
import StellarRecrypt.StrkeyTheorems
import StellarRecrypt.Keys
import StellarRecrypt.Dem
import StellarRecrypt.Wire
import StellarRecrypt.WireGrammar
import StellarRecrypt.Pre
import StellarRecrypt.Delegation
import StellarRecrypt.Ed25519
import StellarRecrypt.Sample
import StellarRecrypt.ConsistencyTheorems
import StellarRecrypt.DelegationTheorems
import StellarRecrypt.DomainSeparation
import StellarRecrypt.ExclusivityTheorems
import StellarRecrypt.Serialization
import StellarRecrypt.BitErrors
import StellarRecrypt.Checksum
import StellarRecrypt.Framing
import StellarRecrypt.Honest
import StellarRecrypt.Collusion
import StellarRecrypt.Hops
import StellarRecrypt.Isolation
import StellarRecrypt.KeyTheorems
import StellarRecrypt.Nesting
import StellarRecrypt.OverflowChecks
import StellarRecrypt.RandomBytes
import StellarRecrypt.Sampling
import StellarRecrypt.StrkeyApi
import StellarRecrypt.StrkeyRejections
import StellarRecrypt.Panics
import StellarRecrypt.TypoDetection
import StellarRecrypt.X25519
