import MarketFeed.Exchange.Feed
import MarketFeed.Notice.Basic
import MarketFeed.Pump.Session
import MarketFeed.Proofs.Pump.Delivery
import MarketFeed.Proofs.Text.Utf8
import MarketFeed.Proofs.Text.Digits
import MarketFeed.Proofs.Json.StringPart
import MarketFeed.Proofs.Json.Numeral
import MarketFeed.Proofs.Json.Grammar
import MarketFeed.Proofs.Json.Reading
import MarketFeed.Proofs.Json.Fields
import MarketFeed.Proofs.Exchange.Classification
import MarketFeed.Proofs.Exchange.Acceptance
import MarketFeed.Proofs.Decimal.Canonical
import MarketFeed.Proofs.Json.View
import MarketFeed.Proofs.Market.Verbatim
import MarketFeed.Proofs.Pump.Accounting
import MarketFeed.Proofs.Exchange.Report
import MarketFeed.Proofs.Json.Tame
import MarketFeed.Proofs.Json.Writing
import MarketFeed.Proofs.Exchange.RoundTrip
import MarketFeed.Proofs.Json.Blanks
import MarketFeed.Proofs.Json.Layout
import MarketFeed.Proofs.Exchange.Content
import MarketFeed.Proofs.Exchange.Agreement
import MarketFeed.Proofs.Market.Sequencing
import MarketFeed.Proofs.Exchange.Routing
import MarketFeed.Proofs.Exchange.Blame
import MarketFeed.Proofs.Market.Conversion
import MarketFeed.Proofs.Exchange.Rows
import MarketFeed.Proofs.Market.Worth
import MarketFeed.Proofs.Json.Amount
import MarketFeed.Proofs.Json.Place
import MarketFeed.Proofs.Json.Ends
import MarketFeed.Proofs.Json.FieldRef
import MarketFeed.Proofs.Exchange.Capture
import MarketFeed.Proofs.Json.Respelling
import MarketFeed.Proofs.Exchange.Integers
import MarketFeed.Proofs.Json.Clearing
import MarketFeed.Proofs.Exchange.Amounts
import MarketFeed.Proofs.Exchange.OpenNames
import MarketFeed.Proofs.Market.Timeframes
import MarketFeed.Proofs.Exchange.Topics
import MarketFeed.Proofs.Pump.Running
import MarketFeed.Proofs.Pump.Narration
import MarketFeed.Proofs.Notice.Rendering
import MarketFeed.Proofs.Notice.Sending
import MarketFeed.Proofs.Market.Bar
import MarketFeed.Proofs.Pump.Preview
