import EvmJumps.Analyzer
import EvmJumps.Cache.Shared
import EvmJumps.Config.Printer
import EvmJumps.Config.Reader
import EvmJumps.Main
import EvmJumps.Proofs.Cache.Accounting
import EvmJumps.Proofs.Cache.Capacity
import EvmJumps.Proofs.Cache.Clearing
import EvmJumps.Proofs.Cache.Interleaving
import EvmJumps.Proofs.Cache.Residency
import EvmJumps.Proofs.Cache.Transparency
import EvmJumps.Proofs.CanonicalBytes
import EvmJumps.Proofs.Coherence
import EvmJumps.Proofs.Concatenation
import EvmJumps.Proofs.Config.Exactness
import EvmJumps.Proofs.Config.Repetition
import EvmJumps.Proofs.Config.RoundTrip
import EvmJumps.Proofs.Destinations
import EvmJumps.Proofs.Disassembly
import EvmJumps.Proofs.Grammar
import EvmJumps.Proofs.Hex.Faults
import EvmJumps.Proofs.Hex.Spelling
import EvmJumps.Proofs.Immediates
import EvmJumps.Proofs.JumpCheck
import EvmJumps.Proofs.Listing
import EvmJumps.Proofs.Mnemonics
import EvmJumps.Proofs.Naming
import EvmJumps.Proofs.OffsetSet
import EvmJumps.Proofs.Reuse
import EvmJumps.Proofs.Session
