import CoreLang.Main
import CoreLang.Tree.Script
import CoreLang.Token.Reader
import CoreLang.Proofs.RoundTrip
import CoreLang.Proofs.Safety
import CoreLang.Proofs.Shape
import CoreLang.Proofs.Threshold
import CoreLang.Proofs.Reprinting
import CoreLang.Proofs.Blame
import CoreLang.Proofs.CanonicalText
import CoreLang.Proofs.DataTokens
import CoreLang.Proofs.Requests
import CoreLang.Proofs.RenamedRuns
import CoreLang.Proofs.Renaming
import CoreLang.Proofs.ExactValues
import CoreLang.Proofs.Conditions
import CoreLang.Proofs.Agreement
import CoreLang.Proofs.BoundedOutput
import CoreLang.Proofs.DataReading
import CoreLang.Proofs.ScanningOn
import CoreLang.Proofs.FirstTokens
import CoreLang.Proofs.CursorPaths
import CoreLang.Proofs.Preorder
import CoreLang.Program.Nesting
import CoreLang.Proofs.Advance
import CoreLang.Proofs.LaidOut
import CoreLang.Proofs.Bookkeeping
import CoreLang.Proofs.HandedOut
