import ServiceBusExtractor.RunEnds
import ServiceBusExtractor.Deliveries
import ServiceBusExtractor.TableLife
import ServiceBusExtractor.Connections
import ServiceBusExtractor.Cursor
import ServiceBusExtractor.FullFetch
import ServiceBusExtractor.Verdict
import ServiceBusExtractor.Limit
import ServiceBusExtractor.Armed
import ServiceBusExtractor.Script
import ServiceBusExtractor.Remaining
import ServiceBusExtractor.WriteBeforeSettle
import ServiceBusExtractor.History
import ServiceBusExtractor.Columns
import ServiceBusExtractor.Accounting
import ServiceBusExtractor.HiddenFields
import ServiceBusExtractor.TableName
import ServiceBusExtractor.SinkRow
import ServiceBusExtractor.DeferredCalls
import ServiceBusExtractor.SavedState
import ServiceBusExtractor.OrphanScan
import ServiceBusExtractor.RetryBudgets
import ServiceBusExtractor.ColumnNames
import ServiceBusExtractor.Bisection
import ServiceBusExtractor.PendingAlgebra
import ServiceBusExtractor.Redaction
import ServiceBusExtractor.AmqpValue
