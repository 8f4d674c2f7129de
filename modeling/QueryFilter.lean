import QueryFilter.Main
import QueryFilter.Proofs.Answer
import QueryFilter.Proofs.Catalog
import QueryFilter.Proofs.Condition
import QueryFilter.Proofs.Double
import QueryFilter.Proofs.Extension
import QueryFilter.Proofs.FirstFault
import QueryFilter.Proofs.Independence
import QueryFilter.Proofs.Literal
import QueryFilter.Proofs.Numeral
import QueryFilter.Proofs.Params
import QueryFilter.Proofs.Path
import QueryFilter.Proofs.RoundTrip
import QueryFilter.Proofs.Validity
import QueryFilter.Proofs.WellFormed
import QueryFilter.Proofs.Json
import QueryFilter.Proofs.QueryText
import QueryFilter.Proofs.Construction
import QueryFilter.Proofs.SortOrder
import QueryFilter.Proofs.Pushing
import QueryFilter.Proofs.OneAndMany
import QueryFilter.Proofs.LiteralGrammar
import QueryFilter.Proofs.Collecting
import QueryFilter.Proofs.Subject
import QueryFilter.Proofs.Entries
import QueryFilter.Proofs.Declaration
import QueryFilter.Proofs.Document
