import MoneyFlow.Holder.Ownership
import MoneyFlow.Transaction.Consequences
import MoneyFlow.Transaction.Producers
import MoneyFlow.Transaction.Reservation
import MoneyFlow.Ledger.Fake
import MoneyFlow.Transfer.Overdraft
import MoneyFlow.Transfer.Rebuild
import MoneyFlow.Transfer.Answers
import MoneyFlow.Transfer.Retry
import MoneyFlow.Commands
import MoneyFlow.Consumer.Delivery
import MoneyFlow.Books.Movements
import MoneyFlow.Ach.Notices
import MoneyFlow.Ach.Recovery
import MoneyFlow.Ach.Submission
import MoneyFlow.Securities.Payout
import MoneyFlow.Securities.Schedule
import MoneyFlow.Transaction.Dispatch
import MoneyFlow.Transfer.Selection
import MoneyFlow.Transfer.NextStep
import MoneyFlow.Transfer.Inverse
import MoneyFlow.Transfer.Wide
import MoneyFlow.Projector.Agreement
import MoneyFlow.Orchestrator
