import Cjson.Main
import Cjson.Proofs.Agreement
import Cjson.Proofs.Bounds
import Cjson.Proofs.ByteOrderMark
import Cjson.Proofs.Concatenation
import Cjson.Proofs.Cut
import Cjson.Proofs.Deferral
import Cjson.Proofs.Delimiting
import Cjson.Proofs.Equality
import Cjson.Proofs.Forced
import Cjson.Proofs.Header
import Cjson.Proofs.HeaderComment
import Cjson.Proofs.Incomplete
import Cjson.Proofs.Integral
import Cjson.Proofs.Isolation
import Cjson.Proofs.Junction
import Cjson.Proofs.Narrowing
import Cjson.Proofs.NumberWord
import Cjson.Proofs.Protocol
import Cjson.Proofs.Quotation
import Cjson.Proofs.Resolution
import Cjson.Proofs.Respelling
import Cjson.Proofs.Row
import Cjson.Proofs.Safety
import Cjson.Proofs.Serialization
import Cjson.Proofs.Skipping
import Cjson.Proofs.Superset
