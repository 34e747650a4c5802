import WitParser.ExceptFold
import WitParser.Text
import WitParser.Semver
import WitParser.Stability
import WitParser.PackageName
import WitParser.WorldKey
import WitParser.Types
import WitParser.TypeTree
import WitParser.Repr
import WitParser.Function
import WitParser.FuturesAndStreams
import WitParser.EncoderResource
import WitParser.RoundtripWit
import WitParser.Order
import WitParser.Numbering
import WitParser.ParseDir
