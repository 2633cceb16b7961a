import ListScript.Access.Binding
import ListScript.Json.Reader
import ListScript.Runner
import ListScript.Proofs.PathScan
import ListScript.Proofs.PathSpelling
import ListScript.Proofs.PathGrammar
import ListScript.Proofs.Field
import ListScript.Proofs.WriteThenRead
import ListScript.Proofs.Fuel
import ListScript.Proofs.Discipline
import ListScript.Proofs.Upheld
import ListScript.Proofs.Unreached
import ListScript.Proofs.Sequence
import ListScript.Proofs.CallFree
import ListScript.Proofs.Seclusion
import ListScript.Proofs.Balance
import ListScript.Proofs.CallRecord
import ListScript.Proofs.Readable
import ListScript.Proofs.Concealment
import ListScript.Proofs.Invocation
import ListScript.Proofs.PrintedJson
import ListScript.Proofs.GrowthRun
import ListScript.Proofs.Termination
import ListScript.Proofs.Reentry
import ListScript.Proofs.WriteEffect
import ListScript.Proofs.DistinctNames
import ListScript.Proofs.Transcript
import ListScript.Proofs.MethodCall
import ListScript.Proofs.ScopeForest
