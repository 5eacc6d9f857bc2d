import DynamicObjects.Main
import DynamicObjects.Members.Ledger
import DynamicObjects.Proofs.Classes.Fullnames
import DynamicObjects.Proofs.Classes.Operations
import DynamicObjects.Proofs.Collections.Representations
import DynamicObjects.Proofs.Instances.Ancestors
import DynamicObjects.Proofs.Instances.LateBinding
import DynamicObjects.Proofs.Order.Numbers
import DynamicObjects.Proofs.Runs.Sessions
import DynamicObjects.Proofs.Collections.Membership
import DynamicObjects.Proofs.Collections.Merging
import DynamicObjects.Proofs.Documents.Erasure
import DynamicObjects.Proofs.Documents.Reading
import DynamicObjects.Proofs.CommandLine.SortedAgain
import DynamicObjects.Proofs.Classes.Descent
import DynamicObjects.Proofs.Classes.Registration
import DynamicObjects.Proofs.Closure.Reports
import DynamicObjects.Proofs.Errors.Circumstances
import DynamicObjects.Proofs.Errors.Operations
import DynamicObjects.Proofs.Errors.Comparisons
import DynamicObjects.Proofs.Errors.Sorting
import DynamicObjects.Proofs.Errors.Demands
import DynamicObjects.Proofs.Errors.Policy
import DynamicObjects.Proofs.Order.Equality
import DynamicObjects.Proofs.Sorting.Comparators
import DynamicObjects.Proofs.Documents.Circles
import DynamicObjects.Proofs.Collections.Folding
import DynamicObjects.Proofs.Collections.Mapping
import DynamicObjects.Proofs.Collections.Positions
import DynamicObjects.Proofs.Collections.Telling
import DynamicObjects.Proofs.Collections.Searching
import DynamicObjects.Proofs.Collections.Splitting
import DynamicObjects.Proofs.Collections.MergeLaws
import DynamicObjects.Proofs.Sorting.Lexicographic
import DynamicObjects.Proofs.Collections.SortedByKeys
import DynamicObjects.Proofs.Collections.Grouping
import DynamicObjects.Proofs.Collections.Views
import DynamicObjects.Proofs.Collections.Rekeying
import DynamicObjects.Proofs.Collections.Copies
import DynamicObjects.Proofs.CommandLine.Flags
import DynamicObjects.Proofs.Members.Ledgers
