import Downlevel.Main
import Downlevel.Proofs.Accessor.Once
import Downlevel.Proofs.Ancestry
import Downlevel.Proofs.Jar.Versions
import Downlevel.Proofs.Lower.Access
import Downlevel.Proofs.Lower.Members
import Downlevel.Proofs.Lower.RecordFrames
import Downlevel.Proofs.Lower.Resolved
import Downlevel.Proofs.Symbols.Check
import Downlevel.Proofs.Unreached
import Downlevel.Proofs.Walks
import Downlevel.Proofs.RoundTrip.Jumps
import Downlevel.Proofs.StackMap.Written
import Downlevel.Proofs.Pool.Calls
import Downlevel.Proofs.Running.Machine
import Downlevel.Proofs.Running.Switch
import Downlevel.Proofs.Lower.Asked
import Downlevel.Proofs.Lower.InterfaceFields
import Downlevel.Proofs.Running.BootstrapCall
import Downlevel.Proofs.Running.Building
import Downlevel.Proofs.Running.Concat
import Downlevel.Proofs.Running.Record
import Downlevel.Proofs.CommonAncestor
import Downlevel.Proofs.Symbols.Widening
import Downlevel.Proofs.Symbols.Ambiguity
import Downlevel.Proofs.Pool.Unfolding
import Downlevel.Proofs.Exchange.Replay
import Downlevel.Proofs.Lower.Generated
import Downlevel.Proofs.Manifest
import Downlevel.Proofs.InRange
import Downlevel.Proofs.Descriptor.Mentioned
import Downlevel.Proofs.Joins
import Downlevel.Proofs.Lower.Building
import Downlevel.Proofs.Lower.Naming
